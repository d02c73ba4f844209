import Entailment.Sentence.Basic

/-!
# Negations at the atoms

Negations move towards the atoms by two rules: a double negation cancels, and the negation of a
conjunction or disjunction is the dual of the negations. `pushNegations` applies one pass of either
rule in turn until a turn changes nothing.

The turns end because each rule that applies lightens the sentence: its `negationLoad` counts, for
every negation, the atoms and connectives in its scope (`pass_eq_or_load_lt`).
-/

namespace Entailment

/-- The connective that conjunction and disjunction become below a negation. -/
def Connective.dual? : Connective → Option Connective
  | conjunction => some disjunction
  | disjunction => some conjunction
  | _ => none

namespace Sentence

/-- Writes `~~A` as `A`, in one pass from the outside in. -/
def cancelNegations : Sentence → Sentence
  | atomic atom => atomic atom
  | negation (negation inner) => inner.cancelNegations
  | negation operand => negation operand.cancelNegations
  | binary connective left right =>
    binary connective left.cancelNegations right.cancelNegations

/-- The sentence, or its negation. -/
def signed (negated : Bool) (s : Sentence) : Sentence :=
  if negated then negation s else s

/-- One pass of De Morgan's laws over a sentence, or over its negation: `~(A & B)` becomes
`~A || ~B`, and `~(A || B)` becomes `~A & ~B`. -/
def deMorgan (negated : Bool) : Sentence → Sentence
  | atomic atom => signed negated (atomic atom)
  | negation operand => signed negated (deMorgan true operand)
  | binary connective left right =>
    match negated, connective.dual? with
    | true, some dual => binary dual (deMorgan true left) (deMorgan true right)
    | _, _ => signed negated (binary connective (deMorgan false left) (deMorgan false right))

/-- The number of atoms and connectives. -/
def size : Sentence → Nat
  | atomic _ => 1
  | negation operand => operand.size
  | binary _ left right => 1 + left.size + right.size

/-- The sizes of the operands of all negations, added up. -/
def negationLoad : Sentence → Nat
  | atomic _ => 0
  | negation operand => operand.size + operand.negationLoad
  | binary _ left right => left.negationLoad + right.negationLoad

theorem size_pos (s : Sentence) : 0 < s.size := by
  induction s with
  | atomic => exact Nat.one_pos
  | negation _ ih => exact ih
  | binary => simp only [size]; omega

theorem size_signed (negated : Bool) (s : Sentence) : (signed negated s).size = s.size := by
  cases negated <;> rfl

theorem negationLoad_signed (negated : Bool) (s : Sentence) :
    (signed negated s).negationLoad = (if negated then s.size else 0) + s.negationLoad := by
  cases negated <;> simp [signed, negationLoad]

theorem size_cancelNegations (s : Sentence) : s.cancelNegations.size = s.size := by
  fun_induction cancelNegations s <;> simp_all [size]

theorem size_deMorgan (negated : Bool) (s : Sentence) : (deMorgan negated s).size = s.size := by
  induction s generalizing negated with
  | atomic => simp [deMorgan, size_signed]
  | negation operand ih => simp [deMorgan, size_signed, ih, size]
  | binary connective left right ihl ihr =>
    simp only [deMorgan]
    split <;> simp [size_signed, size, ihl, ihr]

/-- Cancelling changes nothing, or lightens the sentence. -/
theorem cancelNegations_eq_or_load_lt (s : Sentence) :
    s.cancelNegations = s ∨ s.cancelNegations.negationLoad < s.negationLoad := by
  fun_induction cancelNegations s with
  | case1 => exact .inl rfl
  | case2 inner ih =>
    refine .inr ?_
    have := inner.size_pos
    simp only [negationLoad, size]
    rcases ih with eq | lt
    · rw [eq]; omega
    · omega
  | case3 operand _ ih =>
    simp only [negationLoad, size_cancelNegations]
    rcases ih with eq | lt
    · exact .inl (by rw [eq])
    · exact .inr (by omega)
  | case4 connective left right ihl ihr =>
    simp only [negationLoad]
    rcases ihl with eql | ltl <;> rcases ihr with eqr | ltr
    · exact .inl (by rw [eql, eqr])
    · exact .inr (by rw [eql]; omega)
    · exact .inr (by rw [eqr]; omega)
    · exact .inr (by omega)

/-- De Morgan's laws change nothing, or lighten the sentence. -/
theorem deMorgan_eq_or_load_lt (negated : Bool) (s : Sentence) :
    deMorgan negated s = signed negated s ∨
      (deMorgan negated s).negationLoad < (signed negated s).negationLoad := by
  induction s generalizing negated with
  | atomic => exact .inl rfl
  | negation operand ih =>
    simp only [deMorgan, negationLoad_signed, size_deMorgan, size]
    rcases ih true with eq | lt
    · exact .inl (by rw [eq]; rfl)
    · have load := negationLoad_signed true operand
      simp only [if_true] at load
      exact .inr (by simp only [negationLoad]; omega)
  | binary connective left right ihl ihr =>
    simp only [deMorgan]
    split
    · next dual _ =>
      -- The negation moves past the connective, which leaves its scope.
      refine .inr ?_
      have loadLeft := negationLoad_signed true left
      have loadRight := negationLoad_signed true right
      simp only [if_true] at loadLeft loadRight
      simp only [signed, if_true, negationLoad, size]
      rcases ihl true with eql | ltl <;> rcases ihr true with eqr | ltr
      · rw [eql, eqr]; omega
      · rw [eql]; omega
      · rw [eqr]; omega
      · omega
    · -- Nothing happens at this connective.
      simp only [negationLoad_signed, size, size_deMorgan, negationLoad]
      rcases ihl false with eql | ltl <;> rcases ihr false with eqr | ltr
      · exact .inl (by rw [eql, eqr]; rfl)
      · exact .inr (by rw [eql]; simp only [signed, Bool.false_eq_true, if_false] at ltr ⊢; omega)
      · exact .inr (by rw [eqr]; simp only [signed, Bool.false_eq_true, if_false] at ltl ⊢; omega)
      · exact .inr (by simp only [signed, Bool.false_eq_true, if_false] at ltl ltr; omega)

/-- A turn of both rules changes nothing, or lightens the sentence. -/
theorem pass_eq_or_load_lt (s : Sentence) :
    deMorgan false s.cancelNegations = s ∨
      (deMorgan false s.cancelNegations).negationLoad < s.negationLoad := by
  have cancel := s.cancelNegations_eq_or_load_lt
  have morgan := deMorgan_eq_or_load_lt false s.cancelNegations
  simp only [signed, Bool.false_eq_true, if_false] at morgan
  rcases cancel with eq | lt
  · rw [eq] at morgan ⊢
    exact morgan
  · rcases morgan with eq' | lt'
    · exact .inr (by rw [eq']; exact lt)
    · exact .inr (by omega)

/-- Applies both rules in turn until a turn changes nothing. -/
def pushNegations (s : Sentence) : Sentence :=
  let next := deMorgan false s.cancelNegations
  if _changed : next = s then s else next.pushNegations
termination_by s.negationLoad
decreasing_by exact s.pass_eq_or_load_lt.resolve_left ‹_›

/-- Writes the negation of an atom as the opposite atom. -/
def absorbNegations : Sentence → Sentence
  | atomic atom => atomic atom
  | negation (atomic atom) => atomic atom.negate
  | negation operand => negation operand.absorbNegations
  | binary connective left right =>
    binary connective left.absorbNegations right.absorbNegations

end Sentence

end Entailment
