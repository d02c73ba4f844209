import Entailment.Proofs.Reading.Grammar

/-!
# Reading what was written

Writing brackets every compound sentence and puts blanks only around connectives. Without these
blanks the written form of a sentence is an operand of the grammar, whatever the sentence is
(`Sentence.derives_text`). So reading gives the sentence back, and no two sentences are written
alike.
-/

namespace Entailment

namespace Text

variable {c : Char} {left right text : List Char}

theorem exists_range_of_inRanges {table : List CodeRange} {code : Nat}
    (h : inRanges table code = true) : ∃ r ∈ table, r.1 ≤ code ∧ code ≤ r.2 := by
  induction table with
  | nil => cases h
  | cons r table ih =>
    rw [inRanges] at h
    split at h
    · next hl => exact ⟨r, List.mem_cons_self, by simpa using h, hl⟩
    · obtain ⟨r', hr, hc⟩ := ih h
      exact ⟨r', List.mem_cons_of_mem _ hr, hc⟩

/-- No range of blanks meets a range of letters. -/
theorem isBlank_of_isLetter (h : isLetter c = true) : isBlank c = false := by
  have apart : ∀ r ∈ whiteSpace, ∀ a ∈ alphabetic, r.2 < a.1 ∨ a.2 < r.1 := by decide +kernel
  rw [← Bool.not_eq_true]
  intro hb
  obtain ⟨r, hr, _, _⟩ := exists_range_of_inRanges hb
  obtain ⟨a, ha, _, _⟩ := exists_range_of_inRanges h
  have := apart r hr a ha
  omega

theorem isBlank_of_isDigit (h : c.isDigit = true) : isBlank c = false := by
  have apart : ∀ r ∈ whiteSpace, r.2 < 48 ∨ 57 < r.1 := by decide
  have hd : 48 ≤ c.toNat ∧ c.toNat ≤ 57 := by
    simpa [Char.isDigit, UInt32.le_iff_toNat_le] using h
  rw [← Bool.not_eq_true]
  intro hb
  obtain ⟨r, hr, _, _⟩ := exists_range_of_inRanges hb
  have := apart r hr
  omega

theorem isBlank_of_isSymbol (h : isSymbol text = true) : ∀ c ∈ text, isBlank c = false := by
  intro c hc
  rcases isLetter_or_isDigit_of_isSymbol h c hc with hl | hd
  · exact isBlank_of_isLetter hl
  · exact isBlank_of_isDigit hd

theorem withoutBlanks_append :
    withoutBlanks (left ++ right) = withoutBlanks left ++ withoutBlanks right :=
  List.filter_append left right

theorem withoutBlanks_intercalate {sep : List Char} {parts : List (List Char)} :
    withoutBlanks (sep.intercalate parts) =
      (withoutBlanks sep).intercalate (parts.map withoutBlanks) := by
  induction parts with
  | nil => rfl
  | cons part parts ih =>
    cases parts with
    | nil => simp
    | cons next parts =>
      rw [List.intercalate_cons_cons, withoutBlanks_append, withoutBlanks_append, ih]
      simp only [List.map_cons, List.intercalate_cons_cons]

theorem withoutBlanks_of_forall (h : ∀ c ∈ text, isBlank c = false) :
    withoutBlanks text = text := by
  rw [withoutBlanks, List.filter_eq_self]
  intro c hc
  simp [h c hc]

end Text

open Text

/-! ## Written forms without blanks -/

theorem withoutBlanks_name (p : Symbol) : withoutBlanks p.name.toList = p.name.toList :=
  withoutBlanks_of_forall (isBlank_of_isSymbol p.isSymbol_name)

namespace Sentence

theorem withoutBlanks_literal (l : Literal) :
    withoutBlanks l.text.toList =
      if l.negated then '~' :: l.name.toList else l.name.toList := by
  have sign : withoutBlanks ['~'] = ['~'] := by decide
  have hn : withoutBlanks l.name.toList = l.name.toList := withoutBlanks_name l.symbol
  rw [Literal.text]
  split
  · rw [String.toList_append, withoutBlanks_append, hn]
    exact congrArg (· ++ l.name.toList) sign
  · exact hn

theorem withoutBlanks_constant (b : Bool) :
    withoutBlanks (valueText (some b)).toList = (valueText (some b)).toList := by
  cases b <;> decide

theorem withoutBlanks_negation (s : Sentence) :
    withoutBlanks (negation s).text.toList =
      '~' :: ('(' :: withoutBlanks s.text.toList ++ [')']) := by
  have front : withoutBlanks "~(".toList = ['~', '('] := by decide
  have back : withoutBlanks ")".toList = [')'] := by decide
  rw [text, String.toList_append, String.toList_append, withoutBlanks_append,
    withoutBlanks_append, front, back]
  rfl

theorem withoutBlanks_binary (c : Connective) (l r : Sentence) :
    withoutBlanks (binary c l r).text.toList =
      '(' :: (withoutBlanks l.text.toList ++ c.token.toList ++ withoutBlanks r.text.toList)
        ++ [')'] := by
  have front : withoutBlanks "(".toList = ['('] := by decide
  have back : withoutBlanks ")".toList = [')'] := by decide
  have blank : withoutBlanks " ".toList = [] := by decide
  have token : withoutBlanks c.token.toList = c.token.toList := by cases c <;> decide
  simp only [text, String.toList_append, withoutBlanks_append, front, back, blank, token]
  simp

/-- Without its blanks the written form of a sentence is derivable as that sentence. -/
theorem derives_text (s : Sentence) : Derives .operand (withoutBlanks s.text.toList) s := by
  induction s with
  | atomic a =>
    cases a with
    | literal l =>
      rw [text, Atom.text, withoutBlanks_literal]
      obtain ⟨p, negated⟩ := l
      cases negated with
      | false => exact .symbol p
      | true => exact .negatedSymbol p
    | constant b =>
      rw [text, Atom.text, withoutBlanks_constant]
      exact .constant b
  | negation operand ih =>
    -- A bracket is no letter, so the sign does not make a negated literal.
    have other : isSymbol ('(' :: withoutBlanks operand.text.toList ++ [')']) = false := by
      rw [← Bool.not_eq_true]
      intro hs
      exact not_mem_marks_of_isSymbol hs '(' List.mem_cons_self (by decide)
    rw [withoutBlanks_negation]
    exact .negation (.bracketed (.single ih)) other
  | binary c l r ihl ihr =>
    rw [withoutBlanks_binary]
    exact .bracketed (.joined c ihl (.single ihr))

end Sentence

/-- Reading the written form of a sentence without its blanks gives the sentence back, with any
canonical table. So the written form tells sentences apart. -/
theorem parse_text :
    (∀ (s : Sentence) (table : SymbolTable), table.Canonical →
      (Sentence.parse (String.ofList (withoutBlanks s.text.toList)) table).1 = .ok s) ∧
    Function.Injective Sentence.text := by
  have back : ∀ (s : Sentence) (table : SymbolTable), table.Canonical →
      (Sentence.parse (String.ofList (withoutBlanks s.text.toList)) table).1 = .ok s := by
    intro s table h
    rw [Sentence.parse_eq_tree h, String.toList_ofList]
    exact s.derives_text.tree
  refine ⟨back, ?_⟩
  intro s t same
  have hs := back s ∅ SymbolTable.canonical_empty
  rw [same, back t ∅ SymbolTable.canonical_empty] at hs
  cases hs
  rfl

/-- The negation of a negated literal keeps its brackets, and so does that of a conjunction. -/
theorem parse_text_negations :
    let a : Symbol := ⟨"a", by decide⟩
    let notA : Sentence := .literal (Literal.positive a).negate
    let s : Sentence := .binary .implication (.negation notA)
      (.negation (.binary .conjunction notA (.constant true)))
    let table := (∅ : SymbolTable).registerAll [a]
    table.Canonical ∧ (Sentence.parse "(~(~a)=>~((~a&True)))" table).1 = .ok s := by
  intro a notA s table
  have h : table.Canonical := SymbolTable.canonical_empty.registerAll [a]
  have written : String.ofList (withoutBlanks s.text.toList) = "(~(~a)=>~((~a&True)))" := by
    decide +kernel
  exact ⟨h, written ▸ parse_text.1 s table h⟩

end Entailment
