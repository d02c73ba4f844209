import Entailment.Model
import Entailment.ParseError
import Entailment.Text.Letter

/-!
# Symbols and literals

A symbol is a letter that an ASCII digit may follow, such as `a` or `p2`. A literal is a symbol or
its negation, written with a leading `~`. Both are ordered by name, and the symbol itself comes
before its negation.
-/

namespace Entailment

/-- Whether a text is a symbol: one letter, which one ASCII digit may follow. -/
def isSymbol : List Char → Bool
  | [letter] => Text.isLetter letter
  | [letter, digit] => Text.isLetter letter && digit.isDigit
  | _ => false

/-- A propositional symbol. -/
structure Symbol where
  name : String
  isSymbol_name : isSymbol name.toList = true
deriving DecidableEq

namespace Symbol

@[ext] theorem ext {p q : Symbol} (same : p.name = q.name) : p = q := by
  cases p
  cases q
  cases same
  rfl

/-- The symbol of a name, if the name is one. -/
def ofName? (name : String) : Option Symbol :=
  if valid : isSymbol name.toList then some ⟨name, valid⟩ else none

@[simp] theorem ofName?_name (p : Symbol) : ofName? p.name = some p := by
  simp [ofName?, p.isSymbol_name]

theorem name_of_ofName? {name : String} {p : Symbol} (h : ofName? name = some p) :
    p.name = name := by
  unfold ofName? at h
  split at h
  · cases h
    rfl
  · cases h

theorem ofName?_eq_none_iff {name : String} :
    ofName? name = none ↔ isSymbol name.toList = false := by
  unfold ofName?
  split <;> simp_all

/-- Symbols are ordered by name. -/
instance : Ord Symbol where
  compare := compareOn name

instance : Std.TransOrd Symbol :=
  inferInstanceAs (Std.TransCmp (compareOn name))

instance : Std.LawfulEqOrd Symbol where
  compare_self {p} := @Std.ReflCmp.compare_self String compare _ p.name
  eq_of_compare {p q} h := ext (@Std.LawfulEqCmp.eq_of_compare String compare _ p.name q.name h)

end Symbol

/-- A symbol, or the negation of one. -/
structure Literal where
  symbol : Symbol
  negated : Bool
deriving DecidableEq

namespace Literal

@[ext] theorem ext {l k : Literal} (symbols : l.symbol = k.symbol) (signs : l.negated = k.negated) :
    l = k := by
  cases l
  cases k
  cases symbols
  cases signs
  rfl

/-- The literal that is true when the symbol is. -/
def positive (symbol : Symbol) : Literal :=
  ⟨symbol, false⟩

/-- The name of the symbol. -/
def name (l : Literal) : String :=
  l.symbol.name

/-- The literal of a name and a sign. -/
def ofName (name : String) (negated : Bool) : Except ParseError Literal :=
  match Symbol.ofName? name with
  | some symbol => .ok ⟨symbol, negated⟩
  | none => .error (.notSymbol name)

/-- Reads a literal: a symbol, or `~` and a symbol. -/
def read (text : String) : Except ParseError Literal :=
  match text.toList with
  | '~' :: name => ofName (String.ofList name) true
  | _ => ofName text false

/-- The opposite literal on the same symbol. -/
def negate (l : Literal) : Literal :=
  ⟨l.symbol, !l.negated⟩

@[simp] theorem negate_negate (l : Literal) : l.negate.negate = l := by
  simp [negate]

/-- The positive literal on the same symbol. -/
def unsigned (l : Literal) : Literal :=
  positive l.symbol

/-- The truth value of the symbol on which the literal is true. -/
def polarity (l : Literal) : Bool :=
  !l.negated

/-- Two literals are complementary if each is the negation of the other. -/
def complements (l k : Literal) : Bool :=
  l.symbol = k.symbol && l.negated != k.negated

theorem complements_iff {l k : Literal} : l.complements k ↔ k = l.negate := by
  rw [Literal.ext_iff]
  cases hl : l.negated <;> cases hk : k.negated <;> simp [complements, negate, hl, hk, eq_comm]

/-- The truth value of a literal on a model. -/
def evaluate (l : Literal) (m : Model) : Except ModelError Bool :=
  match m.assigned l.name with
  | some value => .ok (value != l.negated)
  | none => .error (.unassigned l.name)

/-- The order of literals: by symbol, and a symbol before its negation. -/
instance : Ord Literal where
  compare := compareLex (compareOn symbol) (compareOn negated)

instance : Std.TransOrd Literal :=
  inferInstanceAs (Std.TransCmp (compareLex (compareOn symbol) (compareOn negated)))

instance : Std.LawfulEqOrd Literal where
  compare_self {l} :=
    @Std.ReflCmp.compare_self _ (compareLex (compareOn symbol) (compareOn negated)) _ l
  eq_of_compare {l k} h := by
    have ⟨symbols, signs⟩ := compareLex_eq_eq.1 (h : compareLex _ _ l k = .eq)
    exact ext (@Std.LawfulEqCmp.eq_of_compare Symbol compare _ _ _ symbols)
      (@Std.LawfulEqCmp.eq_of_compare Bool compare _ _ _ signs)

/-- The written form. -/
def text (l : Literal) : String :=
  if l.negated then "~" ++ l.name else l.name

end Literal

end Entailment
