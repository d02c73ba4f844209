import Entailment.Sentence.Bracket
import Entailment.Sentence.Token
import Entailment.Text.Number

/-!
# Outlines

The outline of a text is the first step of reading it as a sentence: either the text is an atom, or
it falls into parts that are to be read in turn. Connectives have no precedence; the leftmost one
outside the first operand joins that operand to all of the text behind it.

Every part is shorter than the text (`length_lt_of_outline`), so reading ends.
-/

namespace Entailment

/-- How a text is made up of shorter ones. -/
inductive Outline
  /-- A truth constant. -/
  | constant (value : Bool)
  /-- A symbol, or a symbol after a negation sign. -/
  | literal (symbol : Symbol) (negated : Bool)
  /-- A bracketed sentence. -/
  | bracketed (inside : List Char)
  /-- A negation sign before an operand. -/
  | negated (operand : List Char)
  /-- An operand, and the connective and the text that follow it. What follows the operand may be
  at fault; the operand is read before that shows. -/
  | joined (left : List Char) (rest : Except ParseError (Connective × List Char))

namespace Outline

/-- The texts that remain to be read. -/
def parts : Outline → List (List Char)
  | constant _ | literal _ _ => []
  | bracketed inside => [inside]
  | negated operand => [operand]
  | joined left (.error _) => [left]
  | joined left (.ok (_, right)) => [left, right]

end Outline

/-- The outline of an atom: a constant, a symbol, or a symbol after one negation sign. -/
def outlineAtom? (text : List Char) : Option Outline :=
  if text = (valueText (some true)).toList then some (.constant true)
  else if text = (valueText (some false)).toList then some (.constant false)
  else match text with
    | '~' :: name => (Symbol.ofName? (String.ofList name)).map (.literal · true)
    | name => (Symbol.ofName? (String.ofList name)).map (.literal · false)

/-- Cuts a text after the operand it begins with: negation signs, and then a bracketed text or the
text up to the next token. An error names the byte offset of the open bracket, where `offset` is
that of the text. -/
def spanOperand (offset : Nat) : List Char → Except ParseError (List Char × List Char)
  | '~' :: text =>
    (spanOperand (offset + 1) text).map fun (operand, rest) => ('~' :: operand, rest)
  | '(' :: text =>
    match spanClosing 1 text with
    | some (inside, rest) => .ok ('(' :: inside ++ [')'], rest)
    | none => .error (.unmatchedBracket offset)
  | text =>
    match leftmostToken Token.all text with
    | some m => .ok (m.before, m.token.chars ++ m.after)
    | none => .ok (text, [])

/-- The connective that a text begins with and the operand behind it; the text is the end of
`whole`, which an error names if the operand is missing. -/
def outlineRest (whole text : List Char) : Except ParseError (Connective × List Char) :=
  match leadingToken Token.connectives text with
  | some (.connective connective, right) =>
    if right = [] then .error (.missingOperand (String.ofList whole)) else .ok (connective, right)
  | _ => .error (.noOperator (String.ofList text))

/-- The outline of a text that is no atom, by the leftmost of its tokens. -/
def outlineCompound (text : List Char) : Except ParseError Outline :=
  match leftmostToken Token.all text with
  | none =>
    if text.all Text.isAlphanumeric then .error (.notSymbol (String.ofList text))
    else .error (.noOperator (String.ofList text))
  | some ⟨left, .connective connective, right⟩ =>
    if left = [] ∨ right = [] then .error (.missingOperand (String.ofList text))
    else .ok (.joined left (.ok (connective, right)))
  | some ⟨[], .openingBracket, behind⟩ =>
    match spanClosing 1 behind with
    | none => .error (.unmatchedBracket 0)
    | some (inside, []) => .ok (.bracketed inside)
    | some (inside, rest) => .ok (.joined inside (outlineRest text rest))
  | some ⟨[], .negation, behind⟩ =>
    match spanOperand 1 behind with
    | .error e => .error e
    | .ok (_, []) => .ok (.negated behind)
    | .ok (operand, rest) => .ok (.joined ('~' :: operand) (outlineRest text rest))
  | some _ => .error (.noOperator (String.ofList text))

/-- The outline of a text without blanks. -/
def outline (text : List Char) : Except ParseError Outline :=
  if text = [] then .error .empty
  else match outlineAtom? text with
    | some atom => .ok atom
    | none => outlineCompound text

/-! ## The parts of an outline are shorter than the text -/

theorem parts_outlineAtom? {text : List Char} {o : Outline} (h : outlineAtom? text = some o) :
    o.parts = [] := by
  unfold outlineAtom? at h
  split at h
  · cases h; rfl
  · split at h
    · cases h; rfl
    · split at h
      all_goals
        obtain ⟨symbol, -, rfl⟩ := Option.map_eq_some_iff.1 h
        rfl

/-- An operand and the rest make up the text. -/
theorem append_of_spanOperand {offset : Nat} {text operand rest : List Char}
    (h : spanOperand offset text = .ok (operand, rest)) : text = operand ++ rest := by
  fun_induction spanOperand offset text generalizing operand with
  | case1 offset text ih =>
    cases found : spanOperand (offset + 1) text with
    | error e => simp [found, Except.map] at h
    | ok parts =>
      obtain ⟨operand', rest'⟩ := parts
      simp only [found, Except.map, Except.ok.injEq, Prod.mk.injEq] at h
      obtain ⟨rfl, rfl⟩ := h
      rw [ih found]
      rfl
  | case2 offset text inside rest' closed =>
    cases h
    simp [append_of_spanClosing closed]
  | case3 => cases h
  | case4 offset text _ _ m found =>
    cases h
    simpa using append_of_leftmostToken found
  | case5 =>
    cases h
    simp

theorem length_lt_of_outlineRest {whole text : List Char} {c : Connective} {right : List Char}
    (h : outlineRest whole text = .ok (c, right)) : right.length < text.length := by
  unfold outlineRest at h
  split at h
  · next found =>
    split at h
    · cases h
    · cases h
      have lengths := congrArg List.length (append_of_leadingToken found)
      have := List.length_pos_iff.2 (Token.connective c).chars_ne_nil
      simp only [List.length_append] at lengths
      omega
  · cases h

theorem length_lt_of_joined {left rest whole text : List Char} (atLeft : left.length < text.length)
    (atRest : rest.length ≤ text.length) :
    ∀ part ∈ (Outline.joined left (outlineRest whole rest)).parts, part.length < text.length := by
  intro part member
  cases found : outlineRest whole rest with
  | error e =>
    simp only [found, Outline.parts, List.mem_singleton] at member
    rwa [member]
  | ok parts =>
    obtain ⟨c, right⟩ := parts
    simp only [found, Outline.parts, List.mem_cons, List.not_mem_nil, or_false] at member
    rcases member with rfl | rfl
    · exact atLeft
    · exact Nat.lt_of_lt_of_le (length_lt_of_outlineRest found) atRest

theorem length_lt_of_outlineCompound {text : List Char} {o : Outline}
    (h : outlineCompound text = .ok o) : ∀ part ∈ o.parts, part.length < text.length := by
  unfold outlineCompound at h
  split at h
  · split at h <;> cases h
  · next found =>
    -- A connective is leftmost, and the parts are what lies on its sides.
    split at h
    · cases h
    · cases h
      simpa [Outline.parts] using ⟨length_before_lt found, length_after_lt found⟩
  · next behind found =>
    -- The text begins with a bracket, and its first part is what lies within.
    have shorter := length_after_lt found
    split at h
    · cases h
    · next inside closed =>
      cases h
      have := congrArg List.length (append_of_spanClosing closed)
      simp only [List.length_append, List.length_cons] at this
      simp only [Outline.parts, List.mem_singleton, forall_eq]
      simp only at shorter
      omega
    · next inside rest _ closed =>
      cases h
      have := congrArg List.length (append_of_spanClosing closed)
      simp only [List.length_append, List.length_cons] at this
      simp only at shorter
      exact length_lt_of_joined (by omega) (by omega)
  · next behind found =>
    -- The text begins with a negation sign. Its first part is what is negated, or the negation,
    -- which is shorter than the text if something follows it.
    have shorter := length_after_lt found
    split at h
    · cases h
    · next operand closed =>
      cases h
      simpa [Outline.parts] using shorter
    · next operand rest nonempty closed =>
      cases h
      have lengths := congrArg List.length (append_of_spanOperand closed)
      have := List.length_pos_iff.2 nonempty
      simp only [List.length_append] at lengths
      simp only at shorter
      exact length_lt_of_joined (by simp only [List.length_cons]; omega) (by omega)
  · cases h

/-- Every part of an outline is shorter than the text. -/
theorem length_lt_of_outline {text : List Char} {o : Outline} (h : outline text = .ok o) :
    ∀ part ∈ o.parts, part.length < text.length := by
  unfold outline at h
  split at h
  · cases h
  · split at h
    · next found =>
      cases h
      simp [parts_outlineAtom? found]
    · exact length_lt_of_outlineCompound h

end Entailment
