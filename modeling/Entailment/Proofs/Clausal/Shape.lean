import Entailment.Proofs.Clausal.Equivalence

/-!
# The shape of a sentence between the passes

Expansion leaves conjunctions and disjunctions only. Pushing negations stops at a sentence that both
of its rules leave as it is, so that each negation left stands over an atom, where it is absorbed.
What remains is built from atoms by conjunctions and disjunctions (`isJunctive_absorbed`).
-/

namespace Entailment.Sentence

/-- The connectives of a sentence, one for each occurrence. -/
def connectives : Sentence → List Connective
  | atomic _ => []
  | negation operand => operand.connectives
  | binary c left right => c :: (left.connectives ++ right.connectives)

/-- The connective at the top, if there is one. -/
def connective? : Sentence → Option Connective
  | binary c _ _ => some c
  | _ => none

/-- Some part of the sentence has the property. The sentence is a part of itself. -/
def Has (p : Sentence → Prop) : Sentence → Prop
  | atomic a => p (atomic a)
  | negation operand => p (negation operand) ∨ operand.Has p
  | binary c left right => p (binary c left right) ∨ left.Has p ∨ right.Has p

def IsNegation : Sentence → Prop
  | negation _ => True
  | _ => False

/-- Only atoms, conjunctions and disjunctions. -/
def IsJunctive : Sentence → Prop
  | atomic _ => True
  | negation _ => False
  | binary c left right =>
    (c = .conjunction ∨ c = .disjunction) ∧ left.IsJunctive ∧ right.IsJunctive

/-- No negation stands directly over a negation, a conjunction or a disjunction. -/
def NegationsPushed : Sentence → Prop
  | atomic _ => True
  | negation (atomic _) => True
  | negation (negation _) => False
  | negation (binary c left right) =>
    c.dual? = none ∧ left.NegationsPushed ∧ right.NegationsPushed
  | binary _ left right => left.NegationsPushed ∧ right.NegationsPushed

/-- A negation stands directly over atoms only. -/
def NegationsAtAtoms : Sentence → Prop
  | atomic _ => True
  | negation operand => ∃ a, operand = atomic a
  | binary _ left right => left.NegationsAtAtoms ∧ right.NegationsAtAtoms

variable {p q : Sentence → Prop} {s : Sentence}

theorem Has.mono (h : s.Has p) (hpq : ∀ t, p t → q t) : s.Has q := by
  induction s with
  | atomic a => exact hpq _ h
  | negation operand ih => exact h.imp (hpq _) ih
  | binary c left right ihl ihr => exact h.imp (hpq _) (Or.imp ihl ihr)

/-! ## Connectives -/

theorem connectives_signed (negated : Bool) (s : Sentence) :
    (signed negated s).connectives = s.connectives := by
  cases negated <;> rfl

theorem mem_connectives_binary {c d : Connective} {left right : Sentence} :
    c ∈ (binary d left right).connectives ↔
      c = d ∨ c ∈ left.connectives ∨ c ∈ right.connectives := by
  simp [connectives]

theorem mem_connectives_iff {c : Connective} :
    c ∈ s.connectives ↔ s.Has fun t => t.connective? = some c := by
  induction s with
  | atomic a => simp [connectives, Has, connective?]
  | negation operand ih => simp [connectives, Has, connective?, ih]
  | binary d left right ihl ihr =>
    rw [mem_connectives_binary, ihl, ihr, Has, connective?, Option.some.injEq, eq_comm]

theorem dual?_eq_some {c d : Connective} (h : c.dual? = some d) :
    (c = .conjunction ∨ c = .disjunction) ∧ (d = .conjunction ∨ d = .disjunction) := by
  cases c <;> cases h <;> simp

theorem dual?_ne_none {c : Connective} (h : c = .conjunction ∨ c = .disjunction) :
    c.dual? ≠ none := by
  rcases h with rfl | rfl <;> simp [Connective.dual?]

theorem conjunction_or_disjunction {s : Sentence} {c : Connective}
    (hi : .implication ∉ s.connectives) (hb : .biconditional ∉ s.connectives)
    (hc : c ∈ s.connectives) : c = .conjunction ∨ c = .disjunction := by
  cases c with
  | conjunction => exact .inl rfl
  | disjunction => exact .inr rfl
  | implication => exact absurd hc hi
  | biconditional => exact absurd hc hb

theorem connectives_expandBiconditionals {s : Sentence} {c : Connective}
    (h : c ∈ s.expandBiconditionals.connectives) : c ≠ .biconditional := by
  fun_induction expandBiconditionals s with
  | case1 => cases h
  | case2 operand ih => exact ih h
  | case3 left right l r ihl ihr =>
    simp only [mem_connectives_binary] at h
    rcases h with rfl | (rfl | h | h) | rfl | h | h
    · simp
    · simp
    · exact ihl h
    · exact ihr h
    · simp
    · exact ihr h
    · exact ihl h
  | case4 d left right hd ihl ihr =>
    rcases mem_connectives_binary.1 h with rfl | h | h
    · exact hd
    · exact ihl h
    · exact ihr h

theorem connectives_expandImplications {s : Sentence} {c : Connective}
    (h : c ∈ s.expandImplications.connectives) :
    c ≠ .implication ∧ (c ∈ s.connectives ∨ c = .disjunction) := by
  fun_induction expandImplications s with
  | case1 => cases h
  | case2 operand ih => exact ih h
  | case3 left right ihl ihr =>
    simp only [mem_connectives_binary]
    rcases mem_connectives_binary.1 h with rfl | h | h
    · exact ⟨by simp, .inr rfl⟩
    · exact ⟨(ihl h).1, (ihl h).2.imp_left fun h => .inr (.inl h)⟩
    · exact ⟨(ihr h).1, (ihr h).2.imp_left fun h => .inr (.inr h)⟩
  | case4 d left right hd ihl ihr =>
    simp only [mem_connectives_binary]
    rcases mem_connectives_binary.1 h with rfl | h | h
    · exact ⟨hd, .inl (.inl rfl)⟩
    · exact ⟨(ihl h).1, (ihl h).2.imp_left fun h => .inr (.inl h)⟩
    · exact ⟨(ihr h).1, (ihr h).2.imp_left fun h => .inr (.inr h)⟩

theorem connectives_cancelNegations (s : Sentence) :
    s.cancelNegations.connectives = s.connectives := by
  fun_induction cancelNegations s with
  | case1 => rfl
  | case2 inner ih => exact ih
  | case3 operand _ ih => exact ih
  | case4 c left right ihl ihr => rw [connectives, connectives, ihl, ihr]

theorem connectives_deMorgan {negated : Bool} {s : Sentence} {c : Connective}
    (h : c ∈ (deMorgan negated s).connectives) :
    c ∈ s.connectives ∨ c = .conjunction ∨ c = .disjunction := by
  induction s generalizing negated with
  | atomic a =>
    rw [deMorgan, connectives_signed] at h
    exact .inl h
  | negation operand ih =>
    rw [deMorgan, connectives_signed] at h
    exact ih h
  | binary d left right ihl ihr =>
    simp only [deMorgan] at h
    rw [mem_connectives_binary]
    split at h
    · next dual hd =>
      rcases mem_connectives_binary.1 h with rfl | h | h
      · exact .inr (dual?_eq_some hd).2
      · exact (ihl h).imp_left fun h => .inr (.inl h)
      · exact (ihr h).imp_left fun h => .inr (.inr h)
    · rw [connectives_signed] at h
      rcases mem_connectives_binary.1 h with rfl | h | h
      · exact .inl (.inl rfl)
      · exact (ihl h).imp_left fun h => .inr (.inl h)
      · exact (ihr h).imp_left fun h => .inr (.inr h)

theorem connectives_pushNegations {s : Sentence} {c : Connective}
    (h : c ∈ s.pushNegations.connectives) :
    c ∈ s.connectives ∨ c = .conjunction ∨ c = .disjunction := by
  fun_induction pushNegations s with
  | case1 => exact .inl h
  | case2 s _ _ ih =>
    rcases ih h with h | h
    · rw [← connectives_cancelNegations s]
      exact connectives_deMorgan h
    · exact .inr h

theorem connectives_absorbNegations (s : Sentence) :
    s.absorbNegations.connectives = s.connectives := by
  fun_induction absorbNegations s with
  | case1 | case2 => rfl
  | case3 operand _ ih => exact ih
  | case4 c left right ihl ihr => rw [connectives, connectives, ihl, ihr]

/-- Pushing negations only brings in conjunctions and disjunctions. -/
theorem not_mem_connectives_pushNegations {c : Connective}
    (hc : c ≠ .conjunction ∧ c ≠ .disjunction) (h : c ∉ s.connectives) :
    c ∉ s.pushNegations.connectives := by
  intro hp
  exact (connectives_pushNegations hp).elim h fun hj => hj.elim hc.1 hc.2

/-! ## Negations -/

/-- Pushing negations, turn by turn while a turn of both rules changes something, comes to an
end. -/
def PushingEnds (s t : Sentence) : Prop :=
  LoopEnds (fun s => deMorgan false s.cancelNegations ≠ s)
    (fun s => deMorgan false s.cancelNegations) s t

theorem pushingEnds_pushNegations (s : Sentence) : PushingEnds s s.pushNegations := by
  fun_induction pushNegations s with
  | case1 s _ same => exact .stop (not_not_intro same)
  | case2 s _ changed ih => exact .step changed ih

/-- If a turn changes nothing, neither of its rules does: both only ever lighten a sentence. -/
theorem fixed_of_pass_eq {s : Sentence} (h : deMorgan false s.cancelNegations = s) :
    s.cancelNegations = s ∧ deMorgan false s = s := by
  have hc : s.cancelNegations = s := by
    rcases s.cancelNegations_eq_or_load_lt with hc | hc
    · exact hc
    · have hl := congrArg negationLoad h
      rcases deMorgan_eq_or_load_lt false s.cancelNegations with hm | hm
      · rw [hm] at hl
        exact absurd hl (Nat.ne_of_lt hc)
      · exact absurd hl (Nat.ne_of_lt (Nat.lt_trans hm hc))
  rw [hc] at h
  exact ⟨hc, h⟩

theorem cancelNegations_ne (s : Sentence) : s.cancelNegations ≠ negation (negation s) := by
  intro h
  have hl := congrArg negationLoad h
  have hp := s.size_pos
  simp only [negationLoad, size] at hl
  rcases s.cancelNegations_eq_or_load_lt with hc | hc
  · rw [hc] at hl
    omega
  · omega

theorem negationsPushed_of_fixed {s : Sentence} (hc : s.cancelNegations = s)
    (hm : deMorgan false s = s) : s.NegationsPushed := by
  fun_induction NegationsPushed s with
  | case1 | case2 => trivial
  | case3 inner => exact absurd hc inner.cancelNegations_ne
  | case4 c left right ihl ihr =>
    simp only [cancelNegations, negation.injEq, binary.injEq, true_and] at hc
    cases hd : c.dual? with
    | some d => simp [deMorgan, signed, hd] at hm
    | none =>
      simp only [deMorgan, signed, hd, if_true, Bool.false_eq_true, if_false, negation.injEq,
        binary.injEq, true_and] at hm
      exact ⟨rfl, ihl hc.1 hm.1, ihr hc.2 hm.2⟩
  | case5 c left right ihl ihr =>
    simp only [cancelNegations, binary.injEq, true_and] at hc
    simp only [deMorgan, signed, Bool.false_eq_true, if_false, binary.injEq, true_and] at hm
    exact ⟨ihl hc.1 hm.1, ihr hc.2 hm.2⟩

/-- Where the turns end, neither rule has anything to do. -/
theorem fixed_pushNegations (s : Sentence) :
    s.pushNegations.cancelNegations = s.pushNegations ∧
      deMorgan false s.pushNegations = s.pushNegations :=
  fixed_of_pass_eq (Classical.not_not.1 s.pushingEnds_pushNegations.not_goesOn)

theorem negationsPushed_pushNegations (s : Sentence) : s.pushNegations.NegationsPushed :=
  negationsPushed_of_fixed s.fixed_pushNegations.1 s.fixed_pushNegations.2

theorem NegationsPushed.atAtoms {s : Sentence} (h : s.NegationsPushed)
    (hs : ∀ c ∈ s.connectives, c = .conjunction ∨ c = .disjunction) : s.NegationsAtAtoms := by
  fun_induction NegationsPushed s with
  | case1 => trivial
  | case2 a => exact ⟨a, rfl⟩
  | case3 => exact h.elim
  | case4 c left right ihl ihr => exact absurd h.1 (dual?_ne_none (hs c List.mem_cons_self))
  | case5 c left right ihl ihr =>
    refine ⟨ihl h.1 fun d hd => hs d ?_, ihr h.2 fun d hd => hs d ?_⟩
    · exact mem_connectives_binary.2 (.inr (.inl hd))
    · exact mem_connectives_binary.2 (.inr (.inr hd))

theorem negationsAtAtoms_pushNegations (hi : .implication ∉ s.connectives)
    (hb : .biconditional ∉ s.connectives) : s.pushNegations.NegationsAtAtoms := by
  refine s.negationsPushed_pushNegations.atAtoms fun c hc => ?_
  exact conjunction_or_disjunction (not_mem_connectives_pushNegations (by simp) hi)
    (not_mem_connectives_pushNegations (by simp) hb) hc

/-- Pushing negations comes to an end for every sentence. It ends where neither of its rules changes
anything, and no negation stands over a negation, a conjunction or a disjunction. In a sentence
without other connectives every negation is then over an atom. -/
theorem pushing_ends (s : Sentence) :
    PushingEnds s s.pushNegations ∧
    s.pushNegations.NegationsPushed ∧
    s.pushNegations.cancelNegations = s.pushNegations ∧
    deMorgan false s.pushNegations = s.pushNegations ∧
    (.implication ∉ s.connectives → .biconditional ∉ s.connectives →
      s.pushNegations.NegationsAtAtoms) := by
  obtain ⟨hc, hm⟩ := s.fixed_pushNegations
  exact ⟨s.pushingEnds_pushNegations, s.negationsPushed_pushNegations, hc, hm,
    negationsAtAtoms_pushNegations⟩

/-! ## All passes before distribution -/

theorem not_has_isNegation_absorbNegations (h : s.NegationsAtAtoms) :
    ¬ s.absorbNegations.Has IsNegation := by
  fun_induction absorbNegations s with
  | case1 | case2 => exact id
  | case3 operand hn ih =>
    obtain ⟨a, rfl⟩ := h
    exact absurd rfl (hn a)
  | case4 c left right ihl ihr =>
    rw [Has, not_or, not_or]
    exact ⟨id, ihl h.1, ihr h.2⟩

theorem isJunctive_of_not_has_isNegation (hi : .implication ∉ s.connectives)
    (hb : .biconditional ∉ s.connectives) (hn : ¬ s.Has IsNegation) : s.IsJunctive := by
  induction s with
  | atomic a => trivial
  | negation operand ih => exact absurd (.inl trivial) hn
  | binary c left right ihl ihr =>
    have hc := conjunction_or_disjunction hi hb List.mem_cons_self
    rw [mem_connectives_binary, not_or, not_or] at hi hb
    rw [Has, not_or, not_or] at hn
    exact ⟨hc, ihl hi.2.1 hb.2.1 hn.2.1, ihr hi.2.2 hb.2.2 hn.2.2⟩

/-- What is handed to distribution is built from atoms by conjunctions and disjunctions. -/
theorem isJunctive_absorbed (s : Sentence) :
    s.expandBiconditionals.expandImplications.pushNegations.absorbNegations.IsJunctive := by
  have hi : .implication ∉ s.expandBiconditionals.expandImplications.connectives :=
    fun h => (connectives_expandImplications h).1 rfl
  have hb : .biconditional ∉ s.expandBiconditionals.expandImplications.connectives :=
    fun h => (connectives_expandImplications h).2.elim
      (fun hb => connectives_expandBiconditionals hb rfl) (by simp)
  have hn := negationsAtAtoms_pushNegations hi hb
  refine isJunctive_of_not_has_isNegation ?_ ?_ (not_has_isNegation_absorbNegations hn)
  · rw [connectives_absorbNegations]
    exact not_mem_connectives_pushNegations (by simp) hi
  · rw [connectives_absorbNegations]
    exact not_mem_connectives_pushNegations (by simp) hb

end Entailment.Sentence
