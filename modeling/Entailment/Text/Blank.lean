import Entailment.Text.CodeRange

/-!
Blanks: the characters with the Unicode property White_Space. Sentences are read with every blank
removed, the lines of a document with the blanks at both ends removed.
-/

namespace Entailment.Text

/-- The code points with the property White_Space. -/
def whiteSpace : List CodeRange :=
  [(0x9, 0xd), (0x20, 0x20), (0x85, 0x85), (0xa0, 0xa0), (0x1680, 0x1680), (0x2000, 0x200a),
   (0x2028, 0x2029), (0x202f, 0x202f), (0x205f, 0x205f), (0x3000, 0x3000)]

/-- A blank is a character with the property White_Space. -/
def isBlank (c : Char) : Bool :=
  ofClass whiteSpace c

/-- A text without its blanks. -/
def withoutBlanks (text : List Char) : List Char :=
  text.filter (!isBlank ·)

/-- A text without the blanks at its ends. -/
def trimBlanks (text : List Char) : List Char :=
  ((text.dropWhile isBlank).reverse.dropWhile isBlank).reverse

/-- Every character that the core library takes for white space is a blank. -/
theorem isBlank_of_isWhitespace {c : Char} (h : c.isWhitespace) : isBlank c := by
  simp only [Char.isWhitespace, Bool.or_eq_true, decide_eq_true_eq] at h
  rcases h with ((rfl | rfl) | rfl) | rfl <;> decide

/-- Taking the blanks out leaves none. -/
theorem isBlank_of_mem_withoutBlanks {c : Char} {text : List Char} (h : c ∈ withoutBlanks text) :
    isBlank c = false := by
  simpa using (List.mem_filter.1 h).2

end Entailment.Text
