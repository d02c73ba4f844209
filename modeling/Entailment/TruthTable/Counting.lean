/-!
# Counting in binary

Truth values for several symbols are counted through like the digits of a binary number, the first
symbol being the most significant and `true` the digit one. `countUp` lists all of them; it ends
because every step leaves one larger number fewer (`remaining_next?`).
-/

namespace Entailment.TruthTable

/-- The digits of the next number; none if all digits are ones. -/
def next? : List Bool → Option (List Bool)
  | [] => none
  | digit :: digits =>
    match next? digits with
    | some digits => some (digit :: digits)
    | none => if digit then none else some (true :: List.replicate digits.length false)

/-- How many numbers of as many digits are larger. -/
def remaining : List Bool → Nat
  | [] => 0
  | digit :: digits => (if digit then 0 else Nat.pow 2 digits.length) + remaining digits

theorem length_next? {digits succ : List Bool} (h : next? digits = some succ) :
    succ.length = digits.length := by
  induction digits generalizing succ with
  | nil => cases h
  | cons digit digits ih =>
    simp only [next?] at h
    split at h
    · next found =>
      cases h
      simp [ih found]
    · split at h
      · cases h
      · cases h
        simp

/-- All numbers but zero are larger than zero. -/
theorem remaining_replicate_false (n : Nat) :
    remaining (List.replicate n false) + 1 = Nat.pow 2 n := by
  induction n with
  | zero => rfl
  | succ n ih =>
    have double : Nat.pow 2 (n + 1) = Nat.pow 2 n * 2 := rfl
    simp only [List.replicate_succ, remaining, List.length_replicate, Bool.false_eq_true, if_false]
    omega

/-- Only the largest number has no next one. -/
theorem remaining_of_next?_eq_none {digits : List Bool} (h : next? digits = none) :
    remaining digits = 0 := by
  induction digits with
  | nil => rfl
  | cons digit digits ih =>
    simp only [next?] at h
    split at h
    · cases h
    · next last =>
      split at h
      · next one => simp [remaining, one, ih last]
      · cases h

/-- One number fewer is larger than the next one. -/
theorem remaining_next? {digits succ : List Bool} (h : next? digits = some succ) :
    remaining succ + 1 = remaining digits := by
  induction digits generalizing succ with
  | nil => cases h
  | cons digit digits ih =>
    simp only [next?] at h
    split at h
    · next found =>
      cases h
      have := ih found
      simp only [remaining, length_next? found]
      omega
    · next last =>
      -- The carry reaches this digit, and all digits behind it go from one to zero.
      have none := remaining_of_next?_eq_none last
      have zeros := remaining_replicate_false digits.length
      split at h
      · cases h
      · next zero =>
        cases h
        simp only [remaining, none, zero, if_true, Bool.false_eq_true, if_false]
        omega

/-- Counts up from the given digits, in front of what was counted before; the last number comes
first. -/
def countFrom (counted : List (List Bool)) (digits : List Bool) : List (List Bool) :=
  match _next : next? digits with
  | none => digits :: counted
  | some succ => countFrom (digits :: counted) succ
termination_by remaining digits
decreasing_by
  have := remaining_next? ‹_›
  omega

/-- All lists of `n` truth values, in ascending order. -/
def countUp (n : Nat) : List (List Bool) :=
  (countFrom [] (List.replicate n false)).reverse

end Entailment.TruthTable
