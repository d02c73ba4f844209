/-!
# Byte offsets

Offsets into a text count the bytes of its UTF-8 form, so only some offsets lie between two
characters. `splitAtByte` cuts a text at such an offset: `splitAtByte_eq_some_iff` says that the two
parts make up the text and that the first one has the given size.
-/

namespace Entailment.Text

/-- The number of bytes of a text in UTF-8. -/
def byteCount : List Char → Nat
  | [] => 0
  | c :: text => c.utf8Size + byteCount text

@[simp] theorem byteCount_nil : byteCount [] = 0 :=
  rfl

@[simp] theorem byteCount_cons (c : Char) (text : List Char) :
    byteCount (c :: text) = c.utf8Size + byteCount text :=
  rfl

@[simp] theorem byteCount_append (left right : List Char) :
    byteCount (left ++ right) = byteCount left + byteCount right := by
  induction left with
  | nil => simp
  | cons c left ih => simp [ih, Nat.add_assoc]

/-- Only the empty text has no bytes. -/
@[simp] theorem byteCount_eq_zero_iff {text : List Char} : byteCount text = 0 ↔ text = [] := by
  cases text with
  | nil => simp
  | cons c text => simp [Nat.ne_of_gt c.utf8Size_pos]

theorem byteCount_eq_byteCount_append_iff {left right : List Char} :
    byteCount left = byteCount (left ++ right) ↔ right = [] := by
  rw [byteCount_append, ← byteCount_eq_zero_iff]
  omega

/-- The parts of a text before and after a byte offset, if the offset lies between two characters
or at an end. -/
def splitAtByte : Nat → List Char → Option (List Char × List Char)
  | 0, text => some ([], text)
  | _ + 1, [] => none
  | offset + 1, c :: text =>
    if c.utf8Size ≤ offset + 1 then
      (splitAtByte (offset + 1 - c.utf8Size) text).map fun (left, right) => (c :: left, right)
    else none

theorem splitAtByte_eq_some_iff {offset : Nat} {text left right : List Char} :
    splitAtByte offset text = some (left, right) ↔
      left ++ right = text ∧ byteCount left = offset := by
  induction text generalizing offset left with
  | nil =>
    cases offset with
    | zero => cases left <;> simp [splitAtByte, Nat.ne_of_gt (Char.utf8Size_pos _), eq_comm]
    | succ n => cases left <;> simp [splitAtByte]
  | cons c text ih =>
    have positive := c.utf8Size_pos
    cases offset with
    | zero =>
      cases left with
      | nil => simp [splitAtByte, eq_comm]
      | cons d left =>
        have := d.utf8Size_pos
        simp only [splitAtByte, Option.some.injEq, Prod.mk.injEq, byteCount_cons]
        exact ⟨fun h => by simp at h, fun h => by omega⟩
    | succ n =>
      simp only [splitAtByte]
      cases left with
      | nil => split <;> simp
      | cons d left =>
        split
        case isTrue fits =>
          -- Both cuts lie behind the first character, so the tails are cut alike.
          simp only [Option.map_eq_some_iff, Prod.exists, Prod.mk.injEq, List.cons.injEq,
            List.cons_append, byteCount_cons]
          constructor
          · rintro ⟨left', right', found, ⟨rfl, rfl⟩, rfl⟩
            have ⟨parts, size⟩ := ih.1 found
            exact ⟨⟨rfl, parts⟩, by omega⟩
          · rintro ⟨⟨rfl, parts⟩, size⟩
            exact ⟨left, right, ih.2 ⟨parts, by omega⟩, ⟨rfl, rfl⟩, rfl⟩
        case isFalse tooLarge =>
          -- The offset lies within the first character.
          simp only [reduceCtorEq, false_iff, List.cons_append, List.cons.injEq, byteCount_cons]
          rintro ⟨⟨rfl, -⟩, size⟩
          omega

/-- A text is cut at an offset in one way only. -/
theorem append_inj_of_byteCount_eq {left right left' right' : List Char}
    (same : left ++ right = left' ++ right') (size : byteCount left = byteCount left') :
    left = left' ∧ right = right' := by
  have cut := splitAtByte_eq_some_iff.2 ⟨same, size⟩
  have cut' : splitAtByte (byteCount left') (left' ++ right') = some (left', right') :=
    splitAtByte_eq_some_iff.2 ⟨rfl, rfl⟩
  rw [cut', Option.some.injEq, Prod.mk.injEq] at cut
  exact ⟨cut.1.symm, cut.2.symm⟩

end Entailment.Text
