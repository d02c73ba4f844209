import Entailment.Proofs.Queries.ByTable

/-!
# The truth table and the search agree

The truth table and the search are exact about the same total models, so their verdicts can be
compared by what they say about these. A query is entailed by the table exactly when it is found by
refutation and the knowledge base has a model: without a model every query is found by refutation,
and the table entails none.
-/

namespace Entailment

theorem TableReport.entails_iff {r : TableReport} :
    r.entails = true ↔ r.models.length = r.kbModelCount ∧ r.kbModelCount ≠ 0 := by
  rw [entails, Bool.and_eq_true, beq_iff_eq, found, Bool.not_eq_true', List.isEmpty_eq_false_iff,
    ne_eq, ← List.length_eq_zero_iff, and_comm]
  exact and_congr_right fun same => by rw [same]

namespace TableReport.Tabulates

variable {r : TableReport} {kb : KnowledgeBase} {query : Sentence}

theorem found_iff (h : r.Tabulates kb query) :
    r.found = true ↔ ∃ m : Model, m.TotalOn (vocabulary kb query) ∧
      (∀ s ∈ kb.sentences, s.evaluate m = .ok true) ∧ query.evaluate m = .ok true := by
  rw [found, Bool.not_eq_true', List.isEmpty_eq_false_iff_exists_mem]
  exact exists_congr h.mem_models

theorem kbModelCount_ne_zero_iff (h : r.Tabulates kb query) :
    r.kbModelCount ≠ 0 ↔ ∃ m : Model, m.TotalOn (vocabulary kb query) ∧
      ∀ s ∈ kb.sentences, s.evaluate m = .ok true := by
  obtain ⟨kbModels, -, mem, count⟩ := h.kbModelCount
  rw [count, ne_eq, List.length_eq_zero_iff, ← ne_eq, ← List.isEmpty_eq_false_iff,
    List.isEmpty_eq_false_iff_exists_mem]
  exact exists_congr mem

/-- The models listed are as many as those of the knowledge base exactly when they are all of
them. -/
theorem length_models_eq_iff (h : r.Tabulates kb query) :
    r.models.length = r.kbModelCount ↔ ∀ m : Model, m.TotalOn (vocabulary kb query) →
      (∀ s ∈ kb.sentences, s.evaluate m = .ok true) → query.evaluate m = .ok true := by
  obtain ⟨kbModels, nodup, mem, count⟩ := h.kbModelCount
  have distinct := Model.nodup_of_ascending h.ascending_models
  have listed : r.models ⊆ kbModels := by
    intro m hm
    obtain ⟨total, told, -⟩ := (h.mem_models m).1 hm
    exact (mem m).2 ⟨total, told⟩
  rw [count, length_eq_iff_subset distinct nodup listed]
  constructor
  · intro all m total told
    exact ((h.mem_models m).1 (all ((mem m).2 ⟨total, told⟩))).2.2
  · intro all m hm
    obtain ⟨total, told⟩ := (mem m).1 hm
    exact (h.mem_models m).2 ⟨total, told, all m total told⟩

/-- A table of a knowledge base without models lists all of them. -/
theorem length_models_of_kbModelCount_eq_zero (h : r.Tabulates kb query)
    (empty : r.kbModelCount = 0) : r.models.length = r.kbModelCount := by
  rw [h.length_models_eq_iff]
  intro m total told
  exact absurd empty (h.kbModelCount_ne_zero_iff.2 ⟨m, total, told⟩)

end TableReport.Tabulates

/-- The answers by truth table and by search agree, whatever was told and whatever is asked. The
verdicts on entailment differ exactly when the sentences told have no model. -/
theorem check_agrees_dpllQuery (texts : List String) (query : Sentence) :
    ∃ r, TruthTable.check (.told texts) query = .ok r ∧
      r.found = (dpllQuery (.ofKnowledgeBase (.told texts)) query .consistency).found ∧
      ((dpllQuery (.ofKnowledgeBase (.told texts)) query .refutation).found = true ↔
        r.models.length = r.kbModelCount) ∧
      (r.entails = true ↔
        (dpllQuery (.ofKnowledgeBase (.told texts)) query .refutation).found = true ∧
          r.kbModelCount ≠ 0) ∧
      (r.entails ≠ (dpllQuery (.ofKnowledgeBase (.told texts)) query .refutation).found ↔
        ¬ ∃ m : Model, m.TotalOn (vocabulary (.told texts) query) ∧
          ∀ s ∈ (KnowledgeBase.told texts).sentences, s.evaluate m = .ok true) := by
  have coherent := KnowledgeBase.coherent_told texts
  obtain ⟨r, checked, h⟩ := coherent.tabulates query
  have refuted : (dpllQuery (.ofKnowledgeBase (.told texts)) query .refutation).found = true ↔
      r.models.length = r.kbModelCount := by
    rw [coherent.found_refutation_iff, h.length_models_eq_iff]
  refine ⟨r, checked, ?_, refuted, ?_, ?_⟩
  · rw [Bool.eq_iff_iff, h.found_iff, coherent.found_consistency_iff]
  · rw [TableReport.entails_iff, refuted]
  · rw [← h.kbModelCount_ne_zero_iff, Classical.not_not, ne_eq, Bool.eq_iff_iff,
      TableReport.entails_iff, refuted]
    constructor
    · intro differ
      apply Classical.byContradiction
      intro counted
      exact differ ⟨And.left, fun same => ⟨same, counted⟩⟩
    · intro empty same
      exact (same.2 (h.length_models_of_kbModelCount_eq_zero empty)).2 empty

end Entailment
