import Entailment.Sentence.Basic
import Entailment.Text.Bytes

/-!
# Tokens

The tokens of the language are its connectives, the negation sign and the opening bracket; a
closing bracket is found by counting, see `Entailment.Sentence.Bracket`.

`leftmostToken` cuts a text at the first place where some token occurs. At one place at most one
token occurs (`Token.eq_of_chars_isPrefixOf`), so the order of the table of tokens does not matter:
the `=>` inside `<=>` is never found, because `<=>` begins further left.
-/

namespace Entailment

/-- What a text is cut at. -/
inductive Token
  | connective (connective : Connective)
  | negation
  | openingBracket
deriving DecidableEq

namespace Token

/-- The characters of a token. -/
def chars : Token → List Char
  | connective c => c.token.toList
  | negation => ['~']
  | openingBracket => ['(']

/-- The tokens of the connectives. -/
def connectives : List Token :=
  [.connective .biconditional, .connective .implication, .connective .conjunction,
    .connective .disjunction]

/-- All tokens. -/
def all : List Token :=
  connectives ++ [.negation, .openingBracket]

theorem mem_all (t : Token) : t ∈ all := by
  cases t with
  | connective c => cases c <;> decide
  | negation => decide
  | openingBracket => decide

theorem chars_ne_nil (t : Token) : t.chars ≠ [] := by
  cases t with
  | connective c => cases c <;> decide
  | negation => decide
  | openingBracket => decide

/-- No token is the beginning of another one. -/
theorem eq_of_chars_isPrefixOf {t u : Token} (h : t.chars.isPrefixOf u.chars) : t = u := by
  have table : ∀ t ∈ all, ∀ u ∈ all, t.chars.isPrefixOf u.chars → t = u := by decide
  exact table t (mem_all t) u (mem_all u) h

end Token

/-- A token together with the text before and after it. -/
structure TokenMatch where
  before : List Char
  token : Token
  after : List Char
deriving DecidableEq

namespace TokenMatch

/-- The byte offset of the token. -/
def offset (m : TokenMatch) : Nat :=
  Text.byteCount m.before

end TokenMatch

/-- The token of the table that a text begins with, and the text after it. -/
def leadingToken (tokens : List Token) (text : List Char) : Option (Token × List Char) :=
  (tokens.find? (·.chars.isPrefixOf text)).map fun t => (t, text.drop t.chars.length)

/-- Cuts a text at the leftmost token of the table. -/
def leftmostToken (tokens : List Token) : List Char → Option TokenMatch
  | [] => none
  | c :: text =>
    match leadingToken tokens (c :: text) with
    | some (token, after) => some ⟨[], token, after⟩
    | none => (leftmostToken tokens text).map fun m => { m with before := c :: m.before }

theorem append_of_leadingToken {tokens : List Token} {text rest : List Char} {t : Token}
    (h : leadingToken tokens text = some (t, rest)) : text = t.chars ++ rest := by
  obtain ⟨u, found, eq⟩ := Option.map_eq_some_iff.1 h
  cases eq
  have begins := List.find?_some found
  exact (List.prefix_iff_eq_append.1 (List.isPrefixOf_iff_prefix.1 begins)).symm

/-- A cut loses nothing of the text. -/
theorem append_of_leftmostToken {tokens : List Token} {text : List Char} {m : TokenMatch}
    (h : leftmostToken tokens text = some m) : text = m.before ++ m.token.chars ++ m.after := by
  induction text generalizing m with
  | nil => simp [leftmostToken] at h
  | cons c text ih =>
    simp only [leftmostToken] at h
    split at h
    · next found =>
      cases h
      exact append_of_leadingToken found
    · obtain ⟨m', found, rfl⟩ := Option.map_eq_some_iff.1 h
      simpa using ih found

/-- The text after the cut is shorter than the whole text. -/
theorem length_after_lt {tokens : List Token} {text : List Char} {m : TokenMatch}
    (h : leftmostToken tokens text = some m) : m.after.length < text.length := by
  have parts := congrArg List.length (append_of_leftmostToken h)
  have := List.length_pos_iff.2 m.token.chars_ne_nil
  simp only [List.length_append] at parts
  omega

/-- The text before the cut is shorter than the whole text. -/
theorem length_before_lt {tokens : List Token} {text : List Char} {m : TokenMatch}
    (h : leftmostToken tokens text = some m) : m.before.length < text.length := by
  have parts := congrArg List.length (append_of_leftmostToken h)
  have := List.length_pos_iff.2 m.token.chars_ne_nil
  simp only [List.length_append] at parts
  omega

end Entailment
