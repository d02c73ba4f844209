import Entailment.Dpll.Query
import Entailment.Proofs.Clausal.Clauses
import Entailment.Proofs.KnowledgeBase.Telling
import Entailment.Proofs.Search.Decision

/-!
# Answers by search for models

The clauses handed to the search say what the sentences told and the query say, so the search
answers a query about the total models of the sentences themselves.
-/

namespace Entailment

variable {v : Valuation} {kb : KnowledgeBase} {query : Sentence}

/-! ## What the clauses say -/

namespace ClauseBase

theorem satisfies_extended {base : ClauseBase} {extra : List Clause} :
    Satisfies v (base.extended extra) ↔ Satisfies v base.clauses ∧ Satisfies v extra := by
  rw [extended, satisfies_filterClauses, satisfies_append]

theorem satisfies_ofKnowledgeBase :
    Satisfies v (ofKnowledgeBase kb).clauses ↔ ∀ s ∈ kb.sentences, s.value v = true := by
  show Satisfies v (filterClauses (kb.sentences.flatMap Sentence.clauses)) ↔ _
  rw [satisfies_filterClauses]
  constructor
  · intro h s hs
    exact Sentence.satisfies_clauses.1 fun c hc => h c (List.mem_flatMap.2 ⟨s, hs, hc⟩)
  · intro h c hc
    obtain ⟨s, hs, hc⟩ := List.mem_flatMap.1 hc
    exact Sentence.satisfies_clauses.2 (h s hs) c hc

end ClauseBase

/-- The sentence that is put to the search together with those of the knowledge base. -/
def Convention.target (query : Sentence) : Convention → Sentence
  | .refutation => .negation query
  | .consistency => query

theorem queryClauses_eq (base : ClauseBase) (query : Sentence) (convention : Convention) :
    queryClauses base query convention = base.extended (convention.target query).clauses := by
  cases convention <;> rfl

theorem satisfies_queryClauses {convention : Convention} :
    Satisfies v (queryClauses (.ofKnowledgeBase kb) query convention) ↔
      ∀ s ∈ convention.target query :: kb.sentences, s.value v = true := by
  rw [queryClauses_eq, ClauseBase.satisfies_extended, ClauseBase.satisfies_ofKnowledgeBase,
    Sentence.satisfies_clauses, List.forall_mem_cons, and_comm]

/-- The search finds a model exactly when some valuation makes the sentences told and the target
true. -/
theorem satisfiable_dpllQuery_iff_exists_value {convention : Convention} :
    (dpllQuery (.ofKnowledgeBase kb) query convention).outcome.satisfiable = true ↔
      ∃ v, ∀ s ∈ convention.target query :: kb.sentences, s.value v = true := by
  show (search (queryClauses (.ofKnowledgeBase kb) query convention) _).satisfiable = true ↔ _
  rw [satisfiable_search_iff]
  exact exists_congr fun v => satisfies_queryClauses

theorem found_refutation_iff_forall_value :
    (dpllQuery (.ofKnowledgeBase kb) query .refutation).found = true ↔
      ∀ v, (∀ s ∈ kb.sentences, s.value v = true) → query.value v = true := by
  show (!(dpllQuery (.ofKnowledgeBase kb) query .refutation).outcome.satisfiable) = true ↔ _
  rw [Bool.not_eq_true', ← Bool.not_eq_true, satisfiable_dpllQuery_iff_exists_value,
    not_exists]
  refine forall_congr' fun v => ?_
  rw [List.forall_mem_cons, Convention.target, Sentence.value]
  cases query.value v <;> simp

/-! ## Total models -/

/-- The symbols of a knowledge base and a query. -/
def vocabulary (kb : KnowledgeBase) (query : Sentence) : SortedSet String :=
  kb.symbolNames.union query.symbols

/-- Sentences within some symbols are true together on a total model of these symbols exactly when
they are under a valuation. -/
theorem exists_totalOn_iff_exists_value {ss : List Sentence} {names : SortedSet String}
    (h : ∀ s ∈ ss, ∀ name ∈ s.symbolOccurrences, name ∈ names) :
    (∃ m : Model, m.TotalOn names ∧ ∀ s ∈ ss, s.evaluate m = .ok true) ↔
      ∃ v, ∀ s ∈ ss, s.value v = true := by
  constructor
  · intro hm
    obtain ⟨m, -, hm⟩ := hm
    exact ⟨m.valuation, fun s hs => (Sentence.evaluate_eq_ok_iff.1 (hm s hs)).2⟩
  · intro hv
    obtain ⟨v, hv⟩ := hv
    refine ⟨.ofValuation names v, Model.totalOn_ofValuation names v, fun s hs => ?_⟩
    rw [Sentence.evaluate_ofValuation (h s hs), hv s hs]

/-- On a total model of its symbols the negation of a sentence is true exactly when the sentence is
not. -/
theorem evaluate_negation_iff_of_totalOn {m : Model} {names : SortedSet String}
    (hm : m.TotalOn names) (h : ∀ name ∈ query.symbolOccurrences, name ∈ names) :
    (Sentence.negation query).evaluate m = .ok true ↔ ¬ query.evaluate m = .ok true := by
  have hv := hm.values h
  rw [Sentence.evaluate_of_values (s := .negation query) hv, Sentence.evaluate_of_values hv]
  simp [Sentence.value]

namespace KnowledgeBase.Coherent

theorem mem_vocabulary (h : kb.Coherent) (convention : Convention) :
    ∀ s ∈ convention.target query :: kb.sentences, ∀ name ∈ s.symbolOccurrences,
      name ∈ vocabulary kb query := by
  have hq : (convention.target query).symbolOccurrences = query.symbolOccurrences := by
    cases convention <;> rfl
  intro s hs name hn
  rw [vocabulary, SortedSet.mem_union]
  rcases List.mem_cons.1 hs with rfl | hs
  · exact .inr (Sentence.mem_symbols.2 (hq ▸ hn))
  · exact .inl (SortedMap.mem_iff_mem_keys.1 (h.known s hs name hn))

/-- A total model has a truth value for the query and for every sentence told. -/
theorem values (h : kb.Coherent) {m : Model} (hm : m.TotalOn (vocabulary kb query)) :
    ∀ s ∈ query :: kb.sentences, m.Values s.symbolOccurrences :=
  fun s hs => hm.values (h.mem_vocabulary .consistency s hs)

/-- The search finds a model exactly when the sentences told and the target have one in common that
is total on the symbols of the knowledge base and the query. -/
theorem satisfiable_dpllQuery_iff (h : kb.Coherent) (query : Sentence) (convention : Convention) :
    (dpllQuery (.ofKnowledgeBase kb) query convention).outcome.satisfiable = true ↔
      ∃ m : Model, m.TotalOn (vocabulary kb query) ∧
        ∀ s ∈ convention.target query :: kb.sentences, s.evaluate m = .ok true := by
  rw [exists_totalOn_iff_exists_value (h.mem_vocabulary convention)]
  exact satisfiable_dpllQuery_iff_exists_value

theorem found_refutation_iff (h : kb.Coherent) (query : Sentence) :
    (dpllQuery (.ofKnowledgeBase kb) query .refutation).found = true ↔
      ∀ m : Model, m.TotalOn (vocabulary kb query) →
        (∀ s ∈ kb.sentences, s.evaluate m = .ok true) → query.evaluate m = .ok true := by
  have hq : ∀ name ∈ query.symbolOccurrences, name ∈ vocabulary kb query :=
    (List.forall_mem_cons.1 (h.mem_vocabulary .consistency)).1
  show (!(dpllQuery (.ofKnowledgeBase kb) query .refutation).outcome.satisfiable) = true ↔ _
  rw [Bool.not_eq_true', ← Bool.not_eq_true, h.satisfiable_dpllQuery_iff]
  constructor
  · intro none m hm told
    apply Classical.byContradiction
    intro hn
    have hneg := (evaluate_negation_iff_of_totalOn hm hq).2 hn
    exact none ⟨m, hm, List.forall_mem_cons.2 ⟨hneg, told⟩⟩
  · intro all counter
    obtain ⟨m, hm, hs⟩ := counter
    obtain ⟨hneg, told⟩ := List.forall_mem_cons.1 hs
    exact (evaluate_negation_iff_of_totalOn hm hq).1 hneg (all m hm told)

theorem found_consistency_iff (h : kb.Coherent) (query : Sentence) :
    (dpllQuery (.ofKnowledgeBase kb) query .consistency).found = true ↔
      ∃ m : Model, m.TotalOn (vocabulary kb query) ∧
        (∀ s ∈ kb.sentences, s.evaluate m = .ok true) ∧ query.evaluate m = .ok true := by
  show (dpllQuery (.ofKnowledgeBase kb) query .consistency).outcome.satisfiable = true ↔ _
  rw [h.satisfiable_dpllQuery_iff]
  refine exists_congr fun m => and_congr_right fun _ => ?_
  rw [List.forall_mem_cons, and_comm]
  rfl

end KnowledgeBase.Coherent

/-- The answer by search, whatever was told and whatever is asked. Under refutation the query is
found exactly when it is true on all total models of the sentences told, and under consistency
exactly when it is true on one of them. -/
theorem dpllQuery_decides (texts : List String) (query : Sentence) :
    ((dpllQuery (.ofKnowledgeBase (.told texts)) query .refutation).found = true ↔
      ∀ m : Model, m.TotalOn (vocabulary (.told texts) query) →
        (∀ s ∈ (KnowledgeBase.told texts).sentences, s.evaluate m = .ok true) →
          query.evaluate m = .ok true) ∧
    ((dpllQuery (.ofKnowledgeBase (.told texts)) query .consistency).found = true ↔
      ∃ m : Model, m.TotalOn (vocabulary (.told texts) query) ∧
        (∀ s ∈ (KnowledgeBase.told texts).sentences, s.evaluate m = .ok true) ∧
          query.evaluate m = .ok true) := by
  have h := KnowledgeBase.coherent_told texts
  exact ⟨h.found_refutation_iff query, h.found_consistency_iff query⟩

end Entailment
