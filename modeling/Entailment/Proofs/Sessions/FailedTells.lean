import Entailment.Proofs.KnowledgeBase.Texts
import Entailment.Proofs.Queries.Agreement
import Entailment.Proofs.Search.Widening
import Entailment.Proofs.TruthTable.Widening
import Entailment.Session

/-!
# After a failed tell

A tell that fails leaves the sentences as they were, but it may leave symbols behind. No sentence
and no query that was covered before has such a symbol (`KnowledgeBase.KnowsMore`), so that it takes
part in no answer: chaining does not see it, a search adds it to the model without a value, and a
truth table lists each model once for each choice of values for the symbols left behind.
-/

namespace Entailment

/-- The second knowledge base has the same sentences and knows the same symbols, and maybe more. -/
structure KnowledgeBase.KnowsMore (kb kb' : KnowledgeBase) : Prop where
  sentences : kb'.sentences = kb.sentences
  symbols : ∀ name ∈ kb.symbols, name ∈ kb'.symbols

/-- The names of the symbols that only the second knowledge base knows. -/
def KnowledgeBase.newNames (kb kb' : KnowledgeBase) : List String :=
  kb'.symbolNames.toList.filter (· ∉ kb.symbols)

/-- The report with some symbols added to the model, if there is one. -/
def DpllReport.widen (r : DpllReport) (names : List String) : DpllReport where
  found := r.found
  convention := r.convention
  outcome := r.outcome.widen names

variable {kb kb' : KnowledgeBase} {query : Sentence} {name : String}

theorem KnowledgeBase.mem_newNames :
    name ∈ kb.newNames kb' ↔ name ∈ kb'.symbols ∧ name ∉ kb.symbols := by
  rw [newNames, List.mem_filter, decide_eq_true_iff, SortedSet.mem_toList]
  exact Iff.rfl

namespace KnowledgeBase.KnowsMore

theorem of_failed_tell (h : kb.Coherent) {text : String} {fault : ParseError}
    (failed : (kb.tell text).1 = .error fault) : kb.KnowsMore (kb.tell text).2 := by
  obtain ⟨symbols, told, -⟩ := tell_of_canonical h.canonical text
  cases read : sentencesIn text with
  | ok fresh =>
    rw [told, read] at failed
    cases failed
  | error e =>
    rw [told, read]
    exact ⟨rfl, fun name known => SymbolTable.mem_registerAll.2 (.inr known)⟩

theorem mem_symbols_iff (h : kb.KnowsMore kb') :
    name ∈ kb'.symbols ↔ name ∈ kb.symbols ∨ name ∈ kb.newNames kb' := by
  rw [mem_newNames]
  constructor
  · intro known
    by_cases old : name ∈ kb.symbols
    · exact .inl old
    · exact .inr ⟨known, old⟩
  · rintro (old | ⟨known, -⟩)
    · exact h.symbols name old
    · exact known

theorem covers (h : kb.KnowsMore kb') (covered : kb.covers query = true) :
    kb'.covers query = true :=
  covers_iff.2 fun name hn => h.symbols name (covers_iff.1 covered name hn)

/-! ## Chaining -/

theorem solveByChaining_eq (h : kb.KnowsMore kb') (covered : kb.covers query = true)
    (chain : HornBase → Symbol → ChainingReport) :
    Session.solveByChaining chain kb' query = Session.solveByChaining chain kb query := by
  rw [Session.solveByChaining, Session.solveByChaining, HornBase.ofKnowledgeBase,
    HornBase.ofKnowledgeBase, h.sentences, covered, h.covers covered]

/-! ## Search -/

/-- The search is given the same clauses and more symbols. -/
theorem dpllQuery_eq (h : kb.KnowsMore kb') (query : Sentence) (convention : Convention) :
    dpllQuery (.ofKnowledgeBase kb') query convention =
      (dpllQuery (.ofKnowledgeBase kb) query convention).widen (kb.newNames kb') := by
  have clauses : (ClauseBase.ofKnowledgeBase kb').clauses =
      (ClauseBase.ofKnowledgeBase kb).clauses := by
    rw [ClauseBase.ofKnowledgeBase, ClauseBase.ofKnowledgeBase, h.sentences]
  have same : queryClauses (.ofKnowledgeBase kb') query convention =
      queryClauses (.ofKnowledgeBase kb) query convention := by
    rw [queryClauses_eq, queryClauses_eq, ClauseBase.extended, ClauseBase.extended, clauses]
  have symbols (name : String) : name ∈ (ClauseBase.ofKnowledgeBase kb').symbols.toList ↔
      name ∈ (ClauseBase.ofKnowledgeBase kb).symbols.toList ∨ name ∈ kb.newNames kb' := by
    rw [SortedSet.mem_toList, SortedSet.mem_toList, ClauseBase.ofKnowledgeBase,
      ClauseBase.ofKnowledgeBase, SortedSet.mem_union, SortedSet.mem_union, h.sentences, or_assoc]
    exact or_congr_right h.mem_symbols_iff
  have outcome := search_widen (queryClauses (.ofKnowledgeBase kb) query convention) symbols
  simp only [dpllQuery, same, outcome, DpllReport.widen]
  cases convention <;> rfl

theorem solveByDpll_eq (h : kb.KnowsMore kb') (covered : kb.covers query = true)
    (convention : Convention) :
    Session.solveByDpll convention kb' query =
      (Session.solveByDpll convention kb query).widen (kb.newNames kb') := by
  rw [Session.solveByDpll, Session.solveByDpll, if_pos covered, if_pos (h.covers covered)]
  exact h.dpllQuery_eq query convention

/-! ## Truth table -/

open TruthTable

theorem adds (h : kb.KnowsMore kb') (covered : kb.covers query = true) :
    Adds (vocabulary kb query) (kb.newNames kb') (vocabulary kb' query) where
  distinct := kb'.symbolNames.nodup_toList.filter _
  fresh := by
    intro name new old
    rcases SortedSet.mem_union.1 old with old | asked
    · exact (mem_newNames.1 new).2 old
    · exact (mem_newNames.1 new).2 (covers_iff.1 covered name asked)
  mem_iff := by
    intro name
    rw [vocabulary, vocabulary, SortedSet.mem_union, SortedSet.mem_union, or_right_comm]
    exact or_congr_left h.mem_symbols_iff

/-- Sentences on the symbols of the first knowledge base have a model for each of their old ones and
each choice of values for the new symbols. -/
theorem length_models (h : kb.KnowsMore kb') (covered : kb.covers query = true)
    {ss : List Sentence} {ms ms' : List Model}
    (known : ∀ s ∈ ss, ∀ name ∈ s.symbolOccurrences, name ∈ vocabulary kb query)
    (distinct : ms.Nodup) (distinct' : ms'.Nodup)
    (mem : ∀ m, m ∈ ms ↔ m.TotalOn (vocabulary kb query) ∧ ∀ s ∈ ss, s.evaluate m = .ok true)
    (mem' : ∀ m, m ∈ ms' ↔ m.TotalOn (vocabulary kb' query) ∧ ∀ s ∈ ss, s.evaluate m = .ok true) :
    ms'.length = 2 ^ (kb.newNames kb').length * ms.length := by
  have adds := h.adds covered
  refine length_eq_two_pow_mul adds ?_ distinct mem distinct' mem'
  intro m n hm hn same
  refine forall₂_congr fun s hs => ?_
  have within : ∀ name ∈ s.symbolOccurrences, name ∈ vocabulary kb' query :=
    fun name occurs => (adds.mem_iff name).2 (.inl (known s hs name occurs))
  rw [Sentence.evaluate_of_values (hm.values (known s hs)),
    Sentence.evaluate_of_values (hn.values within),
    Sentence.value_congr fun name occurs => same name (known s hs name occurs)]

/-- The table for the second knowledge base has as many times the models. -/
theorem counts (h : kb.KnowsMore kb') (coherent : kb.Coherent) (covered : kb.covers query = true)
    {r r' : TableReport} (table : r.Tabulates kb query) (table' : r'.Tabulates kb' query) :
    r'.models.length = 2 ^ (kb.newNames kb').length * r.models.length ∧
      r'.kbModelCount = 2 ^ (kb.newNames kb').length * r.kbModelCount := by
  have known : ∀ s ∈ query :: kb.sentences, ∀ name ∈ s.symbolOccurrences,
      name ∈ vocabulary kb query := coherent.mem_vocabulary .consistency
  constructor
  · refine h.length_models covered known (Model.nodup_of_ascending table.ascending_models)
      (Model.nodup_of_ascending table'.ascending_models) (fun m => ?_) fun m => ?_
    · rw [table.mem_models, List.forall_mem_cons, and_comm (a := _ = _)]
    · rw [table'.mem_models, List.forall_mem_cons, and_comm (a := _ = _), h.sentences]
  · obtain ⟨ms, distinct, mem, count⟩ := table.kbModelCount
    obtain ⟨ms', distinct', mem', count'⟩ := table'.kbModelCount
    rw [h.sentences] at mem'
    rw [count, count']
    exact h.length_models covered (fun s hs => known s (List.mem_cons_of_mem _ hs)) distinct
      distinct' mem mem'

end KnowledgeBase.KnowsMore

namespace TableReport

variable {r r' : TableReport} {k : Nat}

theorem found_eq_of_scaled (models : r'.models.length = 2 ^ k * r.models.length) :
    r'.found = r.found := by
  have positive : 2 ^ k ≠ 0 := Nat.ne_of_gt (Nat.two_pow_pos k)
  have same : r'.models.isEmpty = r.models.isEmpty := by
    rw [Bool.eq_iff_iff, List.isEmpty_iff_length_eq_zero, List.isEmpty_iff_length_eq_zero, models,
      Nat.mul_eq_zero, or_iff_right positive]
  rw [found, found, same]

theorem entails_eq_of_scaled (models : r'.models.length = 2 ^ k * r.models.length)
    (count : r'.kbModelCount = 2 ^ k * r.kbModelCount) : r'.entails = r.entails := by
  have positive : 2 ^ k ≠ 0 := Nat.ne_of_gt (Nat.two_pow_pos k)
  rw [Bool.eq_iff_iff, entails_iff, entails_iff, models, count, Nat.mul_right_inj positive, ne_eq,
    Nat.mul_eq_zero, or_iff_right positive]

end TableReport

/-! ## Sessions -/

namespace Session

variable {s : Session} {e : Error}

theorem solve_of_dpll (asked : s.currentQuery = .ok query)
    (search : s.settings.algorithm.value = .dpll) :
    s.solve = .ok (.dpll (solveByDpll s.settings.convention.value s.kb query)) := by
  simp only [solve, asked, search]
  rfl

/-- Either way of chaining is a function of the knowledge base. -/
theorem exists_solve_of_chaining (asked : s.currentQuery = .ok query)
    (chaining : s.settings.algorithm.value = .forwardChaining ∨
      s.settings.algorithm.value = .backwardChaining) :
    ∃ chain, ∀ kb, solve { s with kb } = (solveByChaining chain kb query).map .chaining := by
  have asked' (kb : KnowledgeBase) : currentQuery { s with kb } = .ok query := asked
  rcases chaining with forward | backward
  · refine ⟨fun base goal => forwardChain base goal s.settings.agendaInEntailed.value, fun kb => ?_⟩
    simp only [solve, asked', forward, bind_pure_comp]
    rfl
  · refine ⟨backwardChain, fun kb => ?_⟩
    simp only [solve, asked', backward, bind_pure_comp]
    rfl

theorem exists_solve_of_truthTable (coherent : s.kb.Coherent) (asked : s.currentQuery = .ok query)
    (covered : s.kb.covers query = true) (table : s.settings.algorithm.value = .truthTable) :
    ∃ r, s.solve = .ok (.table r) ∧ r.Tabulates s.kb query := by
  obtain ⟨r, checked, tabulates⟩ := coherent.tabulates query
  refine ⟨r, ?_, tabulates⟩
  have answered : solveByTable s.kb query = .ok r := by
    rw [solveByTable, if_pos covered, checked]
    rfl
  simp only [solve, asked, table]
  show solveByTable s.kb query >>= _ = _
  rw [answered]
  rfl

/-- A tell that fails changes no answer to a query that was covered before. -/
theorem solve_after_failed_tell (s : Session) (texts : List String) (text : String)
    (reached : s.kb = .told texts) (asked : s.currentQuery = .ok query)
    (covered : s.kb.covers query = true) (failed : (s.tell text).1 = .error e) :
    let s' := (s.tell text).2
    let new := s.kb.newNames s'.kb
    s'.kb.sentences = s.kb.sentences ∧
    (∀ name, name ∈ s'.kb.symbols ↔ name ∈ s.kb.symbols ∨ name ∈ new) ∧
    (s.settings.algorithm.value = .forwardChaining ∨
      s.settings.algorithm.value = .backwardChaining → s'.solve = s.solve) ∧
    (s.settings.algorithm.value = .dpll → ∃ r r', s.solve = .ok (.dpll r) ∧
      s'.solve = .ok (.dpll r') ∧ r'.found = r.found ∧ r'.convention = r.convention ∧
      r'.outcome.satisfiable = r.outcome.satisfiable ∧ r'.outcome.residual = r.outcome.residual ∧
      r'.outcome.model = r.outcome.model.map (·.widen new)) ∧
    (s.settings.algorithm.value = .truthTable → ∃ r r', s.solve = .ok (.table r) ∧
      s'.solve = .ok (.table r') ∧ r'.found = r.found ∧ r'.entails = r.entails ∧
      r'.models.length = 2 ^ new.length * r.models.length ∧
      r'.kbModelCount = 2 ^ new.length * r.kbModelCount) := by
  intro s' new
  have coherent : s.kb.Coherent := reached ▸ KnowledgeBase.coherent_told texts
  have coherent' : s'.kb.Coherent := coherent.tell text
  obtain ⟨fault, failed, -⟩ := eq_of_mapError_eq_error failed
  have more : s.kb.KnowsMore s'.kb := .of_failed_tell coherent failed
  have covered' : s'.kb.covers query = true := more.covers covered
  refine ⟨more.sentences, fun name => more.mem_symbols_iff, ?_, ?_, ?_⟩
  · intro chaining
    obtain ⟨chain, solve⟩ := exists_solve_of_chaining asked chaining
    calc
      s'.solve = (solveByChaining chain s'.kb query).map .chaining := solve s'.kb
      _ = (solveByChaining chain s.kb query).map .chaining := by
        rw [more.solveByChaining_eq covered chain]
      _ = s.solve := (solve s.kb).symm
  · intro search
    have answer := solve_of_dpll asked search
    have answer' : s'.solve =
        .ok (.dpll (solveByDpll s.settings.convention.value s'.kb query)) :=
      solve_of_dpll asked search
    rw [more.solveByDpll_eq covered] at answer'
    generalize solveByDpll s.settings.convention.value s.kb query = r at answer answer'
    exact ⟨r, r.widen new, answer, answer', rfl, rfl, rfl, rfl, rfl⟩
  · intro table
    obtain ⟨r, solve, tabulates⟩ := exists_solve_of_truthTable coherent asked covered table
    obtain ⟨r', solve', tabulates'⟩ := exists_solve_of_truthTable coherent' asked covered' table
    obtain ⟨models, count⟩ := more.counts coherent covered tabulates tabulates'
    exact ⟨r, r', solve, solve', TableReport.found_eq_of_scaled models,
      TableReport.entails_eq_of_scaled models count, models, count⟩

/-- The symbol before the fault is left behind, and so every model is counted twice. -/
theorem solve_after_failed_tell_unclosed :
    let a : Sentence := .literal (.positive ⟨"a", by decide⟩)
    let s : Session := { kb := .told ["a"], query := some a }
    let s' := (s.tell "b;(").2
    s.currentQuery = .ok a ∧ s.kb.covers a = true ∧
      (s.tell "b;(").1 = .error (.parse (.unmatchedBracket 0)) ∧
      s.kb.newNames s'.kb = ["b"] ∧ ∃ r r', s.solve = .ok (.table r) ∧
        s'.solve = .ok (.table r') ∧ r'.found = r.found ∧ r'.entails = r.entails ∧
        r'.models.length = 2 * r.models.length ∧ r'.kbModelCount = 2 * r.kbModelCount := by
  intro a s s'
  let b : Symbol := ⟨"b", by decide⟩
  have coherent : s.kb.Coherent := KnowledgeBase.coherent_told ["a"]
  have fact : KnowledgeBase.sentencesIn "a" = .ok [a] :=
    KnowledgeBase.sentencesIn_of_derives (by decide) (.single (.symbol _))
  obtain ⟨-, known⟩ := KnowledgeBase.told_singleton fact
  have covered : s.kb.covers a = true :=
    KnowledgeBase.covers_iff.2 fun name hn => (known name).2 (Sentence.mem_symbols.1 hn)
  have first : Registers (Sentence.read ['b']) (.ok (.literal (.positive b))) [b] := by
    rw [Sentence.read_of_literal rfl]
    exact (Registers.register b).map _
  have second : Registers ([['(']].mapM Sentence.read) (.error (.unmatchedBracket 0)) [] := by
    rw [List.mapM_cons, Sentence.read_of_error rfl]
    exact (Registers.throw _).bind_error
  have reads : Registers ([['b'], ['(']].mapM Sentence.read) (.error (.unmatchedBracket 0))
      [b] := by
    rw [List.mapM_cons]
    exact first.bind second.bind_error
  have parts : KnowledgeBase.sentenceTexts "b;(" = [['b'], ['(']] := by decide
  have told : s.kb.tell "b;(" = (.error (.unmatchedBracket 0),
      ⟨s.kb.sentences, s.kb.symbols.registerAll [b]⟩) := by
    rw [KnowledgeBase.tell, parts, reads _ coherent.canonical]
  have failed : (s.tell "b;(").1 = .error (.parse (.unmatchedBracket 0)) := by
    show (s.kb.tell "b;(").1.mapError Error.parse = _
    rw [told]
    rfl
  have new : s.kb.newNames s'.kb = ["b"] := by
    have distinct : (s.kb.newNames s'.kb).Nodup := s'.kb.symbolNames.nodup_toList.filter _
    refine List.perm_singleton.1
      ((List.perm_ext_iff_of_nodup distinct (List.nodup_singleton _)).2 fun name => ?_)
    have table : s'.kb.symbols = s.kb.symbols.registerAll [b] :=
      congrArg (fun result => result.2.symbols) told
    have old : name ∈ [a].flatMap Sentence.symbolOccurrences ↔ name = "a" := List.mem_singleton
    rw [KnowledgeBase.mem_newNames, table, SymbolTable.mem_registerAll, known, old,
      List.mem_singleton]
    constructor
    · rintro ⟨⟨p, member, rfl⟩ | same, other⟩
      · rw [List.mem_singleton.1 member]
      · exact absurd same other
    · rintro rfl
      exact ⟨.inl ⟨b, List.mem_singleton_self b, rfl⟩, by decide⟩
  obtain ⟨-, -, -, -, counted⟩ := solve_after_failed_tell s ["a"] "b;(" rfl rfl covered failed
  obtain ⟨r, r', solve, solve', found, entails, models, count⟩ := counted rfl
  rw [new] at models count
  exact ⟨rfl, covered, failed, new, r, r', solve, solve', found, entails, models, count⟩

end Session

end Entailment
