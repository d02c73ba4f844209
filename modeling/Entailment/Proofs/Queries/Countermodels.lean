import Entailment.Proofs.KnowledgeBase.Texts
import Entailment.Proofs.Queries.BySearch

/-!
# The model of a search

The model that a search reports speaks about the sentences as they were told, and not only about
the clauses made from them: however it is completed to all symbols, the sentences told are true, and
the query is false under refutation and true under consistency. The symbols without a value are
those that the search never needed, and symbols of the query that vanish from its clauses are not
among those of the model at all.
-/

namespace Entailment

variable {v : Valuation} {kb : KnowledgeBase} {query : Sentence} {convention : Convention}
  {m : Model} {name : String}

/-! ## Completions -/

namespace Model

theorem mem_of_assigned {b : Bool} (h : m.assigned name = some b) : name ∈ m :=
  SortedMap.mem_iff_get?.2 ⟨some b, Option.join_eq_some_iff.1 h⟩

/-- A model can be completed to any symbols that include its own. -/
theorem exists_completion {names : SortedSet String} (h : ∀ name ∈ m, name ∈ names) :
    ∃ full : Model, full.TotalOn names ∧ full.Extends m := by
  refine ⟨ofValuation names m.valuation, totalOn_ofValuation names _, fun name b hb => ?_⟩
  rw [assigned_ofValuation, if_pos (h name (mem_of_assigned hb)), valuation_of_assigned hb]

end Model

/-! ## Where the clauses come from -/

theorem ClauseBase.exists_sentence {c : Clause} (h : c ∈ (ofKnowledgeBase kb).clauses) :
    ∃ s ∈ kb.sentences, c ∈ s.clauses :=
  List.mem_flatMap.1 (mem_filterClauses.1 h).1

/-- Every clause handed to the search is one of the target or of a sentence told. -/
theorem exists_sentence_of_mem_queryClauses {c : Clause}
    (h : c ∈ queryClauses (.ofKnowledgeBase kb) query convention) :
    ∃ s ∈ convention.target query :: kb.sentences, c ∈ s.clauses := by
  rw [queryClauses_eq] at h
  rcases List.mem_append.1 (mem_filterClauses.1 h).1 with hc | hc
  · obtain ⟨s, hs, hc⟩ := ClauseBase.exists_sentence hc
    exact ⟨s, List.mem_cons_of_mem _ hs, hc⟩
  · exact ⟨_, List.mem_cons_self, hc⟩

namespace KnowledgeBase.Coherent

/-- Clauses bring no symbols of their own. -/
theorem mem_vocabulary_of_mem_symbols (h : kb.Coherent)
    (hn : name ∈ (ClauseBase.ofKnowledgeBase kb).symbols) : name ∈ vocabulary kb query := by
  rcases SortedSet.mem_union.1 hn with hn | hn
  · obtain ⟨c, hc, hn⟩ := List.mem_flatMap.1 (SortedSet.mem_ofList.1 hn)
    obtain ⟨s, hs, hc⟩ := ClauseBase.exists_sentence hc
    exact h.mem_vocabulary .consistency s (List.mem_cons_of_mem _ hs) name
      (Sentence.symbols_clauses hc hn)
  · exact SortedSet.mem_union.2 (.inl hn)

theorem mem_vocabulary_of_mem_model (h : kb.Coherent)
    (hm : (dpllQuery (.ofKnowledgeBase kb) query convention).outcome.model = some m)
    (hn : name ∈ m) : name ∈ vocabulary kb query := by
  rcases (mem_of_search hm).1 hn with hn | ⟨c, hc, hn⟩
  · exact h.mem_vocabulary_of_mem_symbols (SortedSet.mem_toList.1 hn)
  · obtain ⟨s, hs, hc⟩ := exists_sentence_of_mem_queryClauses hc
    exact h.mem_vocabulary convention s hs name (Sentence.symbols_clauses hc hn)

end KnowledgeBase.Coherent

/-! ## What the model says -/

/-- The truth value of the query on the models that a search looks for. -/
def Convention.sought : Convention → Bool
  | .refutation => false
  | .consistency => true

theorem Convention.value_target :
    (convention.target query).value v = true ↔ query.value v = convention.sought := by
  cases convention with
  | refutation =>
    show (!query.value v) = true ↔ query.value v = false
    rw [Bool.not_eq_true']
  | consistency => exact Iff.rfl

/-- Under every valuation that goes on from the model found, the sentences told are true and the
query has the truth value sought. -/
theorem value_of_dpllQuery
    (hm : (dpllQuery (.ofKnowledgeBase kb) query convention).outcome.model = some m)
    (hv : m.Agrees v) :
    (∀ s ∈ kb.sentences, s.value v = true) ∧ query.value v = convention.sought := by
  have satisfied := satisfies_queryClauses.1 (satisfies_of_search hm hv)
  obtain ⟨target, told⟩ := List.forall_mem_cons.1 satisfied
  exact ⟨told, Convention.value_target.1 target⟩

/-- The model of a report is a witness about the sentences as told. If the search says that there is
a model it has one, which can be completed to all symbols of the knowledge base and the query, and
however this is done, every sentence told is true, and the query is false under refutation and true
under consistency. -/
theorem exists_model_of_satisfiable (texts : List String) (query : Sentence)
    (convention : Convention)
    (h : (dpllQuery (.ofKnowledgeBase (.told texts)) query convention).outcome.satisfiable = true) :
    ∃ m, (dpllQuery (.ofKnowledgeBase (.told texts)) query convention).outcome.model = some m ∧
      (∃ full : Model, full.TotalOn (vocabulary (.told texts) query) ∧ full.Extends m) ∧
      ∀ full : Model, full.TotalOn (vocabulary (.told texts) query) → full.Extends m →
        (∀ s ∈ (KnowledgeBase.told texts).sentences, s.evaluate full = .ok true) ∧
          query.evaluate full = .ok convention.sought := by
  have coherent := KnowledgeBase.coherent_told texts
  obtain ⟨m, hm⟩ := Option.isSome_iff_exists.1 ((satisfiable_search _ _).symm.trans h)
  refine ⟨m, hm, Model.exists_completion fun _ => coherent.mem_vocabulary_of_mem_model hm, ?_⟩
  intro full total completes
  obtain ⟨told, asked⟩ := value_of_dpllQuery hm completes.agrees
  obtain ⟨queryValues, toldValues⟩ := List.forall_mem_cons.1 (coherent.values total)
  exact ⟨fun s hs => Sentence.evaluate_eq_ok_iff.2 ⟨toldValues s hs, told s hs⟩,
    Sentence.evaluate_eq_ok_iff.2 ⟨queryValues, asked⟩⟩

/-- The clause of the first sentence is a tautology and is left out, so nothing decides `c`. -/
theorem exists_model_of_satisfiable_tautology :
    let a : Symbol := ⟨"a", by decide⟩
    let b : Symbol := ⟨"b", by decide⟩
    let c : Symbol := ⟨"c", by decide⟩
    let texts : List String := ["c||~c", "a=>b"]
    let query : Sentence := .literal (.positive b)
    let either : Sentence :=
      .binary .disjunction (.literal (.positive c)) (.literal (Literal.positive c).negate)
    let rule : Sentence := .binary .implication (.literal (.positive a)) query
    (KnowledgeBase.told texts).sentences = [either, rule] ∧
      (dpllQuery (.ofKnowledgeBase (.told texts)) query .refutation).outcome.satisfiable = true ∧
      ∃ m, (dpllQuery (.ofKnowledgeBase (.told texts)) query .refutation).outcome.model = some m ∧
        (∃ full : Model, full.TotalOn (vocabulary (.told texts) query) ∧ full.Extends m) ∧
        ∀ full : Model, full.TotalOn (vocabulary (.told texts) query) → full.Extends m →
          (∀ s ∈ (KnowledgeBase.told texts).sentences, s.evaluate full = .ok true) ∧
            query.evaluate full = .ok false := by
  intro a b c texts query either rule
  have first : KnowledgeBase.sentencesIn "c||~c" = .ok [either] :=
    KnowledgeBase.sentencesIn_of_derives (by decide)
      (.joined .disjunction (.symbol c) (.single (.negatedSymbol c)))
  have second : KnowledgeBase.sentencesIn "a=>b" = .ok [rule] :=
    KnowledgeBase.sentencesIn_of_derives (by decide)
      (.joined .implication (.symbol a) (.single (.symbol b)))
  have told : (KnowledgeBase.told texts).sentences = [either, rule] := by
    rw [KnowledgeBase.sentences_told, List.flatMap_cons, List.flatMap_cons, first, second]
    rfl
  have satisfiable : (dpllQuery (.ofKnowledgeBase (.told texts)) query
      .refutation).outcome.satisfiable = true := by
    rw [satisfiable_dpllQuery_iff_exists_value, told]
    exact ⟨fun _ => false, by decide⟩
  exact ⟨told, satisfiable, exists_model_of_satisfiable texts query .refutation satisfiable⟩

end Entailment
