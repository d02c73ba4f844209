import Entailment.Proofs.Clausal.Shape

/-!
# How far distribution comes

Distribution lifts a conjunction past disjunctions and past nothing else. A negation, an implication
or a biconditional is a barrier to it, so where a barrier stands under a disjunction and has a
conjunction below it, the conjunction stays there (`Blocked`). A pass copies parts of a sentence
about, but only between conjunctions and disjunctions. So it takes no conjunction out from below a
barrier, and brings none there (`blocked_distributeOnce`).

A pass that changes nothing has found no conjunction directly below a disjunction. Then any that is
further down is behind a barrier (`not_hasUnderDisjunction_of_fixed`), and since the passes make a
sentence lighter until they change nothing, distribution does its work on all sentences that are not
blocked and on no other (`distribution_ends_iff`).
-/

namespace Entailment.Sentence

variable {p q : Sentence → Prop} {s : Sentence}

/-! ## Parts of a sentence -/

/-- Some part below the top has the property. -/
def HasBelow (p : Sentence → Prop) : Sentence → Prop
  | atomic _ => False
  | negation operand => operand.Has p
  | binary _ left right => left.Has p ∨ right.Has p

/-- Some part that stands, at any depth, below a disjunction has the property. -/
def HasUnderDisjunction (p : Sentence → Prop) (s : Sentence) : Prop :=
  s.Has fun d => d.connective? = some .disjunction ∧ d.HasBelow p

def IsConjunction (s : Sentence) : Prop :=
  s.connective? = some .conjunction

/-- A negation, an implication or a biconditional. -/
def IsBarrier : Sentence → Prop
  | atomic _ => False
  | negation _ => True
  | binary c _ _ => c = .implication ∨ c = .biconditional

/-- A barrier with a conjunction below it. -/
def BarsConjunction (s : Sentence) : Prop :=
  s.IsBarrier ∧ s.HasBelow IsConjunction

/-- Some barrier under a disjunction has a conjunction below it. -/
def Blocked (s : Sentence) : Prop :=
  s.HasUnderDisjunction BarsConjunction

/-- What stands below a part is a part. -/
theorem has_of_has_hasBelow (h : s.Has fun t => q t ∧ t.HasBelow p) : s.Has p := by
  induction s with
  | atomic a => exact h.2.elim
  | negation operand ih => exact .inr (h.elim And.right ih)
  | binary c left right ihl ihr => exact .inr (h.elim And.right (Or.imp ihl ihr))

theorem HasBelow.imp (h : s.HasBelow p) (hpq : ∀ t : Sentence, t.Has p → t.Has q) :
    s.HasBelow q := by
  cases s with
  | atomic a => exact h
  | negation operand => exact hpq operand h
  | binary c left right => exact Or.imp (hpq left) (hpq right) h

theorem hasUnderDisjunction_negation {a : Sentence} :
    (negation a).HasUnderDisjunction p ↔ a.HasUnderDisjunction p := by
  simp [HasUnderDisjunction, Has, connective?]

theorem hasUnderDisjunction_disjunction {a b : Sentence} :
    (binary .disjunction a b).HasUnderDisjunction p ↔
      (a.Has p ∨ b.Has p) ∨ a.HasUnderDisjunction p ∨ b.HasUnderDisjunction p := by
  simp [HasUnderDisjunction, Has, HasBelow, connective?]

theorem hasUnderDisjunction_binary {c : Connective} (hc : c ≠ .disjunction) {a b : Sentence} :
    (binary c a b).HasUnderDisjunction p ↔
      a.HasUnderDisjunction p ∨ b.HasUnderDisjunction p := by
  simp [HasUnderDisjunction, Has, connective?, hc]

theorem isJunctive_iff : s.IsJunctive ↔ ¬ s.Has IsBarrier := by
  induction s with
  | atomic a => simp [IsJunctive, Has, IsBarrier]
  | negation operand ih => simp [IsJunctive, Has, IsBarrier]
  | binary c left right ihl ihr => cases c <;> simp [IsJunctive, Has, IsBarrier, ihl, ihr]

theorem not_blocked_of_isJunctive (h : s.IsJunctive) : ¬ s.Blocked := by
  intro hb
  have hbars : s.Has BarsConjunction := has_of_has_hasBelow hb
  exact isJunctive_iff.1 h (hbars.mono fun _ => And.left)

/-! ## Conjunctions under disjunctions -/

theorem has_isConjunction_negation {a : Sentence} :
    (negation a).Has IsConjunction ↔ a.Has IsConjunction := by
  simp [Has, IsConjunction, connective?]

theorem has_isConjunction_binary {c : Connective} (hc : c ≠ .conjunction) {a b : Sentence} :
    (binary c a b).Has IsConjunction ↔ a.Has IsConjunction ∨ b.Has IsConjunction := by
  simp [Has, IsConjunction, connective?, hc]

theorem hasConjunctionBelow_iff {below : Bool} :
    s.hasConjunctionBelow below = true ↔
      below = true ∧ s.Has IsConjunction ∨ s.HasUnderDisjunction IsConjunction := by
  induction s generalizing below with
  | atomic a => simp [hasConjunctionBelow, HasUnderDisjunction, Has, IsConjunction, connective?]
  | negation operand ih =>
    rw [has_isConjunction_negation, hasUnderDisjunction_negation]
    exact ih
  | binary c left right ihl ihr =>
    cases c with
    | conjunction =>
      have top : (binary .conjunction left right).Has IsConjunction := .inl rfl
      rw [hasUnderDisjunction_binary (by simp)]
      simp only [hasConjunctionBelow, ihl, ihr, Bool.or_eq_true]
      grind
    | disjunction =>
      rw [hasUnderDisjunction_disjunction, has_isConjunction_binary (by simp)]
      simp only [hasConjunctionBelow, ihl, ihr, Bool.or_eq_true, true_and]
      grind
    | implication | biconditional =>
      rw [hasUnderDisjunction_binary (by simp), has_isConjunction_binary (by simp)]
      simp only [hasConjunctionBelow, ihl, ihr, Bool.or_eq_true]
      grind

theorem hasConjunctionUnderDisjunction_iff :
    s.hasConjunctionUnderDisjunction = true ↔ s.HasUnderDisjunction IsConjunction := by
  simp [hasConjunctionUnderDisjunction, hasConjunctionBelow_iff]

theorem hasConjunctionUnderDisjunction_of_blocked (h : s.Blocked) :
    s.hasConjunctionUnderDisjunction = true := by
  refine hasConjunctionUnderDisjunction_iff.2 (h.mono fun d hd => ⟨hd.1, hd.2.imp fun t ht => ?_⟩)
  exact has_of_has_hasBelow ht

/-- A conjunction that is not at the top is below a barrier or a disjunction. -/
theorem has_isConjunction_cases (hs : ∀ a b, s ≠ binary .conjunction a b)
    (h : s.Has IsConjunction) : s.Has BarsConjunction ∨ s.HasUnderDisjunction IsConjunction := by
  cases s with
  | atomic a => cases h
  | negation operand => exact .inl (.inl ⟨trivial, has_isConjunction_negation.1 h⟩)
  | binary c left right =>
    cases c with
    | conjunction => exact absurd rfl (hs left right)
    | disjunction => exact .inr (.inl ⟨rfl, (has_isConjunction_binary (by simp)).1 h⟩)
    | implication => exact .inl (.inl ⟨.inl rfl, (has_isConjunction_binary (by simp)).1 h⟩)
    | biconditional => exact .inl (.inl ⟨.inr rfl, (has_isConjunction_binary (by simp)).1 h⟩)

/-! ## What a pass keeps -/

/-- A property of atoms and barriers that a barrier keeps when a pass goes over what is below it. -/
structure KeptByPass (p : Sentence → Prop) : Prop where
  junction {c : Connective} (h : c = .conjunction ∨ c = .disjunction) (a b : Sentence) :
    ¬ p (binary c a b)
  negation (a : Sentence) : p (negation a.distributeOnce) ↔ p (negation a)
  binary (c : Connective) (a b : Sentence) :
    p (binary c a.distributeOnce b.distributeOnce) ↔ p (binary c a b)

theorem has_disjoin (hp : KeptByPass p) (a b : Sentence) :
    (disjoin a b).Has p ↔ a.Has p ∨ b.Has p := by
  have hc := hp.junction (.inl rfl)
  have hd := hp.junction (.inr rfl)
  fun_cases disjoin a b with
  | case1 | case2 =>
    simp only [Has, hc, hd, false_or]
    grind
  | case3 => simp only [Has, hd, false_or]

/-- A pass takes no part with such a property out of a sentence, and brings none into it. -/
theorem has_distributeOnce (hp : KeptByPass p) (s : Sentence) :
    s.distributeOnce.Has p ↔ s.Has p := by
  fun_induction distributeOnce s with
  | case1 a => exact Iff.rfl
  | case2 operand ih => exact or_congr (hp.negation operand) ih
  | case3 left right ihl ihr =>
    simp only [has_disjoin hp, Has, hp.junction (.inr rfl), ihl, ihr, false_or]
  | case4 c left right _ ihl ihr => exact or_congr (hp.binary c left right) (or_congr ihl ihr)

theorem has_distribute (hp : KeptByPass p) (s : Sentence) : s.distribute.Has p ↔ s.Has p := by
  fun_induction distribute s with
  | case1 | case3 => exact Iff.rfl
  | case2 s _ _ _ ih => exact ih.trans (has_distributeOnce hp s)

theorem keptByPass_isBarrier : KeptByPass IsBarrier where
  junction := by
    rintro c (rfl | rfl) a b (h | h) <;> cases h
  negation := fun _ => Iff.rfl
  binary := fun _ _ _ => Iff.rfl

theorem isJunctive_distributeOnce (h : s.IsJunctive) : s.distributeOnce.IsJunctive := by
  rw [isJunctive_iff] at h ⊢
  rwa [has_distributeOnce keptByPass_isBarrier]

theorem has_isConjunction_disjoin (a b : Sentence) :
    (disjoin a b).Has IsConjunction ↔ a.Has IsConjunction ∨ b.Has IsConjunction := by
  fun_cases disjoin a b with
  | case1 | case2 => simp [Has, IsConjunction, connective?]
  | case3 => exact has_isConjunction_binary (by simp)

theorem has_isConjunction_distributeOnce (s : Sentence) :
    s.distributeOnce.Has IsConjunction ↔ s.Has IsConjunction := by
  fun_induction distributeOnce s with
  | case1 a => exact Iff.rfl
  | case2 operand ih => exact or_congr Iff.rfl ih
  | case3 left right ihl ihr =>
    rw [has_isConjunction_disjoin, has_isConjunction_binary (by simp), ihl, ihr]
  | case4 c left right _ ihl ihr => exact or_congr Iff.rfl (or_congr ihl ihr)

theorem keptByPass_barsConjunction : KeptByPass BarsConjunction where
  junction := fun hc a b h => keptByPass_isBarrier.junction hc a b h.1
  negation := fun a => and_congr_right fun _ => has_isConjunction_distributeOnce a
  binary := fun _ a b => and_congr_right fun _ =>
    or_congr (has_isConjunction_distributeOnce a) (has_isConjunction_distributeOnce b)

theorem blocked_disjoin (a b : Sentence) :
    (disjoin a b).Blocked ↔ (binary .disjunction a b).Blocked := by
  have hc := keptByPass_barsConjunction.junction (.inl rfl)
  fun_cases disjoin a b with
  | case1 | case2 =>
    -- What stood below the disjunction stands below one of the two that take its place.
    simp only [Blocked, hasUnderDisjunction_disjunction,
      hasUnderDisjunction_binary (c := .conjunction) (by simp), Has, hc, false_or]
    grind
  | case3 => exact Iff.rfl

/-- No pass clears the way of a conjunction, and none gets into it. -/
theorem blocked_distributeOnce (s : Sentence) : s.distributeOnce.Blocked ↔ s.Blocked := by
  fun_induction distributeOnce s with
  | case1 a => exact Iff.rfl
  | case2 operand ih =>
    exact hasUnderDisjunction_negation.trans (ih.trans hasUnderDisjunction_negation.symm)
  | case3 left right ihl ihr =>
    have hb := has_distributeOnce keptByPass_barsConjunction
    rw [blocked_disjoin, Blocked, Blocked, hasUnderDisjunction_disjunction,
      hasUnderDisjunction_disjunction, hb, hb]
    exact or_congr Iff.rfl (or_congr ihl ihr)
  | case4 c left right hc ihl ihr =>
    rw [Blocked, Blocked, hasUnderDisjunction_binary hc, hasUnderDisjunction_binary hc]
    exact or_congr ihl ihr

theorem blocked_repeat (n : Nat) (s : Sentence) :
    (Nat.repeat distributeOnce n s).Blocked ↔ s.Blocked := by
  induction n with
  | zero => exact Iff.rfl
  | succ n ih => exact (blocked_distributeOnce _).trans ih

/-! ## Where distribution ends -/

theorem disjoin_eq_binary {a b x y : Sentence} (h : disjoin a b = binary .disjunction x y) :
    a = x ∧ b = y ∧ (∀ p q, a ≠ binary .conjunction p q) ∧ ∀ p q, b ≠ binary .conjunction p q := by
  unfold disjoin at h
  split at h
  · simp at h
  · simp at h
  · next ha hb =>
    simp only [binary.injEq, true_and] at h
    exact ⟨h.1, h.2, ha, hb⟩

/-- A pass that changes nothing had nothing to do, unless something was in its way. -/
theorem not_hasUnderDisjunction_of_fixed (hb : ¬ s.Blocked) (hf : s.distributeOnce = s) :
    ¬ s.HasUnderDisjunction IsConjunction := by
  unfold Blocked at hb
  fun_induction distributeOnce s with
  | case1 a => exact fun h => h.2
  | case2 operand ih =>
    rw [hasUnderDisjunction_negation] at hb ⊢
    exact ih hb (negation.inj hf)
  | case3 left right ihl ihr =>
    obtain ⟨hl, hr, hcl, hcr⟩ := disjoin_eq_binary hf
    rw [hl] at hcl
    rw [hr] at hcr
    rw [hasUnderDisjunction_disjunction, not_or, not_or, not_or] at hb ⊢
    obtain ⟨⟨hbl, hbr⟩, hul, hur⟩ := hb
    have hl := ihl hul hl
    have hr := ihr hur hr
    refine ⟨⟨fun h => ?_, fun h => ?_⟩, hl, hr⟩
    · exact (has_isConjunction_cases hcl h).elim hbl hl
    · exact (has_isConjunction_cases hcr h).elim hbr hr
  | case4 c left right hc ihl ihr =>
    rw [hasUnderDisjunction_binary hc, not_or] at hb ⊢
    simp only [binary.injEq, true_and] at hf
    exact ⟨ihl hb.1 hf.1, ihr hb.2 hf.2⟩

/-- Distribution, pass by pass while a conjunction stands below a disjunction, comes to an end. -/
def DistributionEnds (s t : Sentence) : Prop :=
  LoopEnds (fun s => s.hasConjunctionUnderDisjunction = true) distributeOnce s t

theorem distributionEnds_distribute (hb : ¬ s.Blocked) : DistributionEnds s s.distribute := by
  fun_induction distribute s with
  | case1 s hc _ hf =>
    exact absurd (hasConjunctionUnderDisjunction_iff.1 hc) (not_hasUnderDisjunction_of_fixed hb hf)
  | case2 s hc _ _ ih => exact .step hc (ih (mt (blocked_distributeOnce s).1 hb))
  | case3 s hc => exact .stop hc

/-- Passes of distribution come to a sentence without a conjunction below a disjunction exactly when
the sentence is not blocked. Then the loop of passes ends, in what `distribute` gives. This holds of
all sentences that have only atoms, conjunctions and disjunctions, such as those that the passes
before it give. -/
theorem distribution_ends_iff (s : Sentence) :
    ((∃ n, (Nat.repeat distributeOnce n s).hasConjunctionUnderDisjunction = false) ↔
      ¬ s.Blocked) ∧
    ((∃ t, DistributionEnds s t) ↔ ¬ s.Blocked) ∧
    (∀ t, DistributionEnds s t →
      t = s.distribute ∧ t.hasConjunctionUnderDisjunction = false) ∧
    (s.IsJunctive → DistributionEnds s s.distribute) ∧
    let absorbed := s.expandBiconditionals.expandImplications.pushNegations.absorbNegations
    DistributionEnds absorbed absorbed.distribute := by
  have passes {t : Sentence} (h : DistributionEnds s t) :
      ∃ n, (Nat.repeat distributeOnce n s).hasConjunctionUnderDisjunction = false := by
    obtain ⟨n, rfl⟩ := h.exists_repeat
    exact ⟨n, by simpa using h.not_goesOn⟩
  have free (h : ∃ n, (Nat.repeat distributeOnce n s).hasConjunctionUnderDisjunction = false) :
      ¬ s.Blocked := by
    obtain ⟨n, hn⟩ := h
    intro hb
    rw [hasConjunctionUnderDisjunction_of_blocked ((blocked_repeat n s).2 hb)] at hn
    cases hn
  refine ⟨⟨free, fun hb => passes (distributionEnds_distribute hb)⟩, ?_, ?_, ?_, ?_⟩
  · constructor
    · intro h
      obtain ⟨t, ht⟩ := h
      exact free (passes ht)
    · intro hb
      exact ⟨_, distributionEnds_distribute hb⟩
  · intro t ht
    have hs := distributionEnds_distribute (free (passes ht))
    exact ⟨ht.unique hs, by simpa using ht.not_goesOn⟩
  · intro hj
    exact distributionEnds_distribute (not_blocked_of_isJunctive hj)
  · exact distributionEnds_distribute (not_blocked_of_isJunctive (isJunctive_absorbed s))

/-! ## Conjunctions of disjunctions -/

theorem isJunctive_distribute (h : s.IsJunctive) : s.distribute.IsJunctive := by
  rw [isJunctive_iff] at h ⊢
  rwa [has_distribute keptByPass_isBarrier]

theorem isDisjunctionOfAtoms_of_not_hasConjunctionBelow (h : s.IsJunctive)
    (hs : s.hasConjunctionBelow true = false) : s.isDisjunctionOfAtoms = true := by
  induction s with
  | atomic a => rfl
  | negation operand ih => exact h.elim
  | binary c left right ihl ihr =>
    rcases h.1 with rfl | rfl
    · simp [hasConjunctionBelow] at hs
    · simp only [hasConjunctionBelow, Bool.or_eq_false_iff] at hs
      simp only [isDisjunctionOfAtoms, ihl h.2.1 hs.1, ihr h.2.2 hs.2, Bool.and_self]

theorem isClausal_of_not_hasConjunctionBelow (h : s.IsJunctive)
    (hs : s.hasConjunctionBelow false = false) : s.isClausal = true := by
  induction s with
  | atomic a => rfl
  | negation operand ih => exact h.elim
  | binary c left right ihl ihr =>
    rcases h.1 with rfl | rfl
    · simp only [hasConjunctionBelow, Bool.or_eq_false_iff] at hs
      simp only [isClausal, ihl h.2.1 hs.1.2, ihr h.2.2 hs.2, Bool.and_self]
    · exact isDisjunctionOfAtoms_of_not_hasConjunctionBelow h hs

/-- Distribution makes a conjunction of disjunctions of what has no other connectives. -/
theorem isClausal_distribute (h : s.IsJunctive) : s.distribute.isClausal = true := by
  have hd := (distributionEnds_distribute (not_blocked_of_isJunctive h)).not_goesOn
  rw [hasConjunctionUnderDisjunction, Bool.not_eq_true] at hd
  exact isClausal_of_not_hasConjunctionBelow (isJunctive_distribute h) hd

end Entailment.Sentence
