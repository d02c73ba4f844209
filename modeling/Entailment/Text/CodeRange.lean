/-!
Character classes given as tables of code point ranges.

A table lists the ranges of a class in ascending order, each as its first and its last code point.
Looking a character up stops at the first range that ends at or after it, so the common
characters, whose ranges come first, cost a few comparisons.
-/

namespace Entailment.Text

/-- A range of code points, by its first and its last member. -/
abbrev CodeRange := Nat × Nat

/-- Whether a code point lies in one of the ranges of an ascending table. -/
def inRanges : List CodeRange → Nat → Bool
  | [], _ => false
  | (first, last) :: ranges, code =>
    if code ≤ last then first ≤ code else inRanges ranges code

/-- A character is of a class when its code point lies in the table of the class. -/
def ofClass (table : List CodeRange) (c : Char) : Bool :=
  inRanges table c.toNat

end Entailment.Text
