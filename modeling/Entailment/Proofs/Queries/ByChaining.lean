import Entailment.Proofs.Chaining.Backward
import Entailment.Proofs.Chaining.Forward
import Entailment.Proofs.Chaining.Rules
import Entailment.Proofs.Queries.BySearch

/-!
# Answers by chaining

Chaining in either direction finds a goal exactly when it follows from the facts and rules. These
say no more than the sentences they are read from, so what is found by chaining is also found by
refutation. They say less where a sentence is a conjunction: `a & (b => c)` gives the rule from `a`
and `b` to `c`, but not the fact `a`.
-/

namespace Entailment

variable {kb : KnowledgeBase} {base : HornBase} {query : Sentence} {goal : Symbol}
  {report : ChainingReport}

/-- The reports of chaining for a goal: forward with the agenda and without it, and backward. -/
def chainingReports (base : HornBase) (goal : Symbol) : List ChainingReport :=
  [forwardChain base goal true, forwardChain base goal false, backwardChain base goal]

theorem cases_of_mem_chainingReports (h : report ∈ chainingReports base goal) :
    (∃ withAgenda, report = forwardChain base goal withAgenda) ∨
      report = backwardChain base goal := by
  rcases List.mem_cons.1 h with rfl | h
  · exact .inl ⟨true, rfl⟩
  rcases List.mem_cons.1 h with rfl | h
  · exact .inl ⟨false, rfl⟩
  · exact .inr (List.mem_singleton.1 h)

theorem found_iff_follows (hb : HornBase.ofKnowledgeBase kb = .ok base)
    (h : report ∈ chainingReports base goal) : report.found = true ↔ base.Follows goal := by
  rcases cases_of_mem_chainingReports h with ⟨withAgenda, rfl⟩ | rfl
  · exact found_forwardChain_iff (HornBase.stated_of_ofKnowledgeBase hb).body_ne_nil
  · exact found_backwardChain_iff

theorem mem_entailed_iff_found (h : report ∈ chainingReports base goal) :
    goal ∈ report.entailed ↔ report.found = true := by
  rcases cases_of_mem_chainingReports h with ⟨withAgenda, rfl⟩ | rfl
  · exact mem_forwardChain_iff
  · exact mem_backwardChain_iff

/-- Whether a goal is found does not hang on the way of chaining. It is found exactly when it is in
the least closed set, and exactly when all valuations that make the facts and rules true make it
true. The goal is among the symbols shown to follow exactly when it is found. -/
theorem chaining_decides (hb : HornBase.ofKnowledgeBase kb = .ok base) (goal : Symbol) :
    ∃ found : Bool,
      (∀ report ∈ chainingReports base goal,
        report.found = found ∧ (goal ∈ report.entailed ↔ found = true)) ∧
      (found = true ↔ base.Follows goal) ∧
      (found = true ↔ ∀ v, base.Satisfied v → v goal.name = true) := by
  have hf : (backwardChain base goal).found = true ↔ base.Follows goal := found_backwardChain_iff
  refine ⟨(backwardChain base goal).found, fun report hr => ?_, hf,
    hf.trans HornBase.follows_iff_forall_satisfied⟩
  have same : report.found = (backwardChain base goal).found := by
    rw [Bool.eq_iff_iff, found_iff_follows hb hr, hf]
  exact ⟨same, same ▸ mem_entailed_iff_found hr⟩

/-- The rules lead round in a circle, one of them to a symbol of its own body, and one repeats a
symbol. -/
theorem chaining_decides_cycle :
    let a : Symbol := ⟨"a", by decide⟩
    let b : Symbol := ⟨"b", by decide⟩
    let c : Symbol := ⟨"c", by decide⟩
    let implies (body : Sentence) (p : Symbol) : Sentence :=
      .binary .implication body (.literal (.positive p))
    let both (p q : Symbol) : Sentence :=
      .binary .conjunction (.literal (.positive p)) (.literal (.positive q))
    let kb : KnowledgeBase :=
      ⟨[.literal (.positive a), implies (both a a) b, implies (both b c) c, implies (both b a) a],
        ∅⟩
    let base : HornBase := ⟨[a], [⟨[a, a], b⟩, ⟨[b, c], c⟩, ⟨[b, a], a⟩]⟩
    HornBase.ofKnowledgeBase kb = .ok base ∧
      ∃ found : Bool,
        (∀ report ∈ chainingReports base c,
          report.found = found ∧ (c ∈ report.entailed ↔ found = true)) ∧
        (found = true ↔ base.Follows c) ∧
        (found = true ↔ ∀ v, base.Satisfied v → v c.name = true) := by
  intro a b c implies both kb base
  have hb : HornBase.ofKnowledgeBase kb = .ok base := rfl
  exact ⟨hb, chaining_decides hb c⟩

/-! ## Chaining and search -/

theorem value_of_hornQuery (hq : hornQuery query = .ok goal) (v : Valuation) :
    query.value v = v goal.name := by
  unfold hornQuery at hq
  split at hq
  · next p hp =>
    cases hq
    rw [Sentence.asSymbol_eq_some_iff.1 hp, HornRule.value_positive]
  · cases hq

/-- What is found by chaining is found by refutation. If no sentence is a conjunction, the verdicts
are equal. -/
theorem found_chaining_dpllQuery (hb : HornBase.ofKnowledgeBase kb = .ok base)
    (hq : hornQuery query = .ok goal) :
    ∀ report ∈ chainingReports base goal,
      (report.found = true →
        (dpllQuery (.ofKnowledgeBase kb) query .refutation).found = true) ∧
      ((∀ s ∈ kb.sentences, ∀ left right, s ≠ .binary .conjunction left right) →
        report.found = (dpllQuery (.ofKnowledgeBase kb) query .refutation).found) := by
  have hs := HornBase.stated_of_ofKnowledgeBase hb
  intro report hr
  have sound : report.found = true →
      (dpllQuery (.ofKnowledgeBase kb) query .refutation).found = true := by
    rw [found_iff_follows hb hr, HornBase.follows_iff_forall_satisfied,
      found_refutation_iff_forall_value]
    intro h v hv
    rw [value_of_hornQuery hq]
    exact h v (hs.satisfied hv)
  refine ⟨sound, fun top => ?_⟩
  have complete : (dpllQuery (.ofKnowledgeBase kb) query .refutation).found = true →
      report.found = true := by
    rw [found_iff_follows hb hr, HornBase.follows_iff_forall_satisfied,
      found_refutation_iff_forall_value]
    intro h v hv
    rw [← value_of_hornQuery hq v]
    exact h v (hs.value_of_satisfied hv top)
  rw [Bool.eq_iff_iff]
  exact ⟨sound, complete⟩

/-- The premise is bracketed here, so the sentence says what the rule says. -/
theorem found_chaining_dpllQuery_bracketed :
    let a : Symbol := ⟨"a", by decide⟩
    let b : Symbol := ⟨"b", by decide⟩
    let premise : Sentence := .binary .conjunction (.literal (.positive a)) (.literal (.positive b))
    let query : Sentence := .literal (.positive b)
    let kb : KnowledgeBase :=
      ⟨[.literal (.positive a), .binary .implication premise query,
        .binary .implication (.literal (.positive a)) query], ∅⟩
    let base : HornBase := ⟨[a], [⟨[a, b], b⟩, ⟨[a], b⟩]⟩
    HornBase.ofKnowledgeBase kb = .ok base ∧ hornQuery query = .ok b ∧
      backwardChain base b ∈ chainingReports base b ∧
      (∀ s ∈ kb.sentences, ∀ left right, s ≠ .binary .conjunction left right) ∧
      (backwardChain base b).found = true ∧
      (dpllQuery (.ofKnowledgeBase kb) query .refutation).found = true ∧
      (backwardChain base b).found =
        (dpllQuery (.ofKnowledgeBase kb) query .refutation).found := by
  intro a b premise query kb base
  have hb : HornBase.ofKnowledgeBase kb = .ok base := rfl
  have hq : hornQuery query = .ok b := rfl
  have hr : backwardChain base b ∈ chainingReports base b := by simp [chainingReports]
  have top : ∀ s ∈ kb.sentences, ∀ left right, s ≠ .binary .conjunction left right := by
    simp [kb, query]
  have found : (backwardChain base b).found = true := by
    have fact : base.Follows a := .fact List.mem_cons_self
    have rule : (⟨[a], b⟩ : HornRule) ∈ base.rules := by simp [base]
    exact found_backwardChain_iff.2 (.rule rule (List.forall_mem_singleton.2 fact))
  have both := found_chaining_dpllQuery hb hq _ hr
  exact ⟨hb, hq, hr, top, found, both.1 found, both.2 top⟩

end Entailment
