import Entailment.Sentence.Basic

/-!
# Disjunctions below conjunctions

`distribute` lifts conjunctions above disjunctions, pass by pass, while some conjunction stands
below a disjunction. A conjunction that an implication, a biconditional or a negation keeps apart
from the disjunction above it is never lifted, and a pass that changes nothing ends the matter.

The passes end because each change makes the sentence lighter: in its `weight` a disjunction counts
the product of its sides and a conjunction their sum and one more.
-/

namespace Entailment.Sentence

/-- Whether some conjunction stands, at any depth, below a disjunction. `below` says that the
sentence itself does. -/
def hasConjunctionBelow (below : Bool) : Sentence → Bool
  | atomic _ => false
  | negation operand => operand.hasConjunctionBelow below
  | binary .conjunction left right =>
    below || left.hasConjunctionBelow below || right.hasConjunctionBelow below
  | binary .disjunction left right =>
    left.hasConjunctionBelow true || right.hasConjunctionBelow true
  | binary _ left right => left.hasConjunctionBelow below || right.hasConjunctionBelow below

/-- Whether some conjunction stands, at any depth, below a disjunction. -/
def hasConjunctionUnderDisjunction (s : Sentence) : Bool :=
  s.hasConjunctionBelow false

/-- The disjunction of two sentences, distributed over one of them if that is a conjunction; the
left one has precedence. -/
def disjoin : Sentence → Sentence → Sentence
  | binary .conjunction first second, other =>
    binary .conjunction (binary .disjunction first other) (binary .disjunction second other)
  | other, binary .conjunction first second =>
    binary .conjunction (binary .disjunction other first) (binary .disjunction other second)
  | left, right => binary .disjunction left right

/-- One pass of distribution, from the leaves up. -/
def distributeOnce : Sentence → Sentence
  | atomic atom => atomic atom
  | negation operand => negation operand.distributeOnce
  | binary .disjunction left right => disjoin left.distributeOnce right.distributeOnce
  | binary connective left right =>
    binary connective left.distributeOnce right.distributeOnce

/-- What distribution makes smaller. -/
def weight : Sentence → Nat
  | atomic _ => 2
  | negation operand => operand.weight
  | binary .conjunction left right => left.weight + right.weight + 1
  | binary .disjunction left right => left.weight * right.weight
  | binary _ left right => left.weight + right.weight

theorem two_le_weight (s : Sentence) : 2 ≤ s.weight := by
  induction s with
  | atomic => exact Nat.le_refl 2
  | negation _ ih => exact ih
  | binary connective left right ihl ihr =>
    cases connective
    · simp only [weight]; omega
    · exact Nat.le_trans ihl (Nat.le_mul_of_pos_right _ (by omega))
    · simp only [weight]; omega
    · simp only [weight]; omega

/-- Every other connective adds the weights of its sides, and a constant of its own. -/
theorem exists_weight_binary {connective : Connective} (h : connective ≠ .disjunction) :
    ∃ extra, ∀ left right : Sentence,
      (binary connective left right).weight = left.weight + right.weight + extra := by
  cases connective
  · exact ⟨1, fun _ _ => rfl⟩
  · exact absurd rfl h
  · exact ⟨0, fun _ _ => rfl⟩
  · exact ⟨0, fun _ _ => rfl⟩

/-- Joining two sentences gives their disjunction, or something lighter. -/
theorem disjoin_eq_or_weight_lt (left right : Sentence) :
    disjoin left right = binary .disjunction left right ∨
      (disjoin left right).weight < left.weight * right.weight := by
  fun_cases disjoin left right with
  | case1 first second =>
    have := right.two_le_weight
    simp only [weight, Nat.add_mul]
    omega
  | case2 first second =>
    have := left.two_le_weight
    simp only [weight, Nat.mul_add]
    omega
  | case3 => exact .inl rfl

/-- A pass of distribution changes nothing, or makes the sentence lighter. -/
theorem distributeOnce_eq_or_weight_lt (s : Sentence) :
    s.distributeOnce = s ∨ s.distributeOnce.weight < s.weight := by
  fun_induction distributeOnce s with
  | case1 => exact .inl rfl
  | case2 operand ih => exact ih.imp (congrArg negation) id
  | case3 left right ihl ihr =>
    have left2 := left.distributeOnce.two_le_weight
    have right2 := right.two_le_weight
    have bound : left.distributeOnce.weight ≤ left.weight := by
      rcases ihl with eq | lt
      · exact Nat.le_of_eq (congrArg weight eq)
      · exact Nat.le_of_lt lt
    -- The sides are unchanged, or the product of their weights sinks.
    have product :
        (left.distributeOnce = left ∧ right.distributeOnce = right) ∨
          left.distributeOnce.weight * right.distributeOnce.weight <
            left.weight * right.weight := by
      rcases ihr with eqr | ltr
      · rcases ihl with eql | ltl
        · exact .inl ⟨eql, eqr⟩
        · rw [eqr]
          exact .inr (Nat.mul_lt_mul_of_pos_right ltl (by omega))
      · exact .inr (Nat.lt_of_lt_of_le (Nat.mul_lt_mul_of_pos_left ltr (by omega))
          (Nat.mul_le_mul_right _ bound))
    rcases disjoin_eq_or_weight_lt left.distributeOnce right.distributeOnce with eq | lt
    · rw [eq]
      rcases product with ⟨eql, eqr⟩ | lt
      · exact .inl (by rw [eql, eqr])
      · exact .inr lt
    · refine .inr (Nat.lt_of_lt_of_le lt ?_)
      rcases product with ⟨eql, eqr⟩ | lt
      · exact Nat.le_of_eq (by rw [eql, eqr, weight])
      · exact Nat.le_of_lt lt
  | case4 connective left right notDisjunction ihl ihr =>
    obtain ⟨extra, weigh⟩ := exists_weight_binary notDisjunction
    rw [weigh, weigh]
    rcases ihl with eql | ltl <;> rcases ihr with eqr | ltr
    · exact .inl (by rw [eql, eqr])
    · exact .inr (by rw [eql]; omega)
    · exact .inr (by rw [eqr]; omega)
    · exact .inr (by omega)

/-- Distributes pass by pass, while some conjunction stands below a disjunction and the pass
changes something. -/
def distribute (s : Sentence) : Sentence :=
  if s.hasConjunctionUnderDisjunction then
    let next := s.distributeOnce
    if _changed : next = s then s else next.distribute
  else s
termination_by s.weight
decreasing_by exact s.distributeOnce_eq_or_weight_lt.resolve_left ‹_›

/-- Whether the sentence is a disjunction of atoms. -/
def isDisjunctionOfAtoms : Sentence → Bool
  | atomic _ => true
  | binary .disjunction left right => left.isDisjunctionOfAtoms && right.isDisjunctionOfAtoms
  | _ => false

/-- Whether the sentence is a conjunction of disjunctions of atoms. -/
def isClausal : Sentence → Bool
  | binary .conjunction left right => left.isClausal && right.isClausal
  | s => s.isDisjunctionOfAtoms

end Entailment.Sentence
