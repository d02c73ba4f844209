import Entailment.ParseError
import Entailment.Text.Bytes

/-!
# Brackets

`spanClosing` cuts a text at the closing bracket that brings the count of open brackets down to
none. The count starts with the brackets that are already open, and a closing bracket that meets no
open one ends the search too.
-/

namespace Entailment

/-- The text before and after the bracket that closes the last of the open brackets. -/
def spanClosing : Nat → List Char → Option (List Char × List Char)
  | _, [] => none
  | depth, c :: text =>
    if c = '(' then (spanClosing (depth + 1) text).map fun (left, right) => (c :: left, right)
    else if c = ')' then
      if depth ≤ 1 then some ([], text)
      else (spanClosing (depth - 1) text).map fun (left, right) => (c :: left, right)
    else (spanClosing depth text).map fun (left, right) => (c :: left, right)

/-- Only the closing bracket at the cut is left out of the parts. -/
theorem append_of_spanClosing {depth : Nat} {text left right : List Char}
    (h : spanClosing depth text = some (left, right)) : text = left ++ ')' :: right := by
  induction text generalizing depth left with
  | nil => simp [spanClosing] at h
  | cons c text ih =>
    have step {depth : Nat}
        (h : (spanClosing depth text).map (fun (l, r) => (c :: l, r)) = some (left, right)) :
        c :: text = left ++ ')' :: right := by
      obtain ⟨⟨l, r⟩, found, eq⟩ := Option.map_eq_some_iff.1 h
      cases eq
      rw [ih found]
      rfl
    simp only [spanClosing] at h
    split at h
    · exact step h
    · split at h
      · next closing =>
        split at h
        · cases h
          rw [closing]
          rfl
        · exact step h
      · exact step h

/-- The byte offset of the bracket that closes the one at a byte offset; no answer if that offset
is not one of the text. -/
def closingOffset? (text : List Char) (start : Nat) : Option (Except ParseError Nat) :=
  (Text.splitAtByte start text).map fun (_, rest) =>
    match spanClosing 0 rest with
    | some (inside, _) => .ok (start + Text.byteCount inside)
    | none => .error (.unmatchedBracket start)

end Entailment
