import Entailment.Literal

/-!
# Sentences

A sentence is an atom (a literal or a truth constant), the negation of a sentence, or two sentences
under a connective. The written form brackets every compound sentence, so that it shows how the
sentence is built.
-/

namespace Entailment

/-- The binary connectives. -/
inductive Connective
  | conjunction
  | disjunction
  | implication
  | biconditional
deriving DecidableEq

namespace Connective

/-- The token that stands for a connective. -/
def token : Connective → String
  | conjunction => "&"
  | disjunction => "||"
  | implication => "=>"
  | biconditional => "<=>"

/-- The truth function of a connective. -/
def apply : Connective → Bool → Bool → Bool
  | conjunction, left, right => left && right
  | disjunction, left, right => left || right
  | implication, left, right => !left || right
  | biconditional, left, right => left == right

end Connective

/-- The sentences that have no parts. -/
inductive Atom
  | literal (literal : Literal)
  | constant (value : Bool)
deriving DecidableEq

namespace Atom

/-- The written form. -/
def text : Atom → String
  | literal l => l.text
  | constant value => valueText (some value)

/-- The truth value on a model. -/
def evaluate : Atom → Model → Except ModelError Bool
  | literal l, m => l.evaluate m
  | constant value, _ => .ok value

/-- The atom that is true when this one is false. -/
def negate : Atom → Atom
  | literal l => literal l.negate
  | constant value => constant (!value)

/-- The names of the symbols: one for a literal, none for a constant. -/
def symbols : Atom → List String
  | literal l => [l.name]
  | constant _ => []

end Atom

/-- The sentences of propositional logic. -/
inductive Sentence
  | atomic (atom : Atom)
  | negation (operand : Sentence)
  | binary (connective : Connective) (left right : Sentence)
deriving DecidableEq

namespace Sentence

/-- The sentence that a literal is. -/
abbrev literal (l : Literal) : Sentence :=
  atomic (.literal l)

/-- The sentence that is always true, or always false. -/
abbrev constant (value : Bool) : Sentence :=
  atomic (.constant value)

/-- The written form, with brackets around every compound sentence. -/
def text : Sentence → String
  | atomic atom => atom.text
  | negation operand => "~(" ++ operand.text ++ ")"
  | binary connective left right =>
    "(" ++ left.text ++ " " ++ connective.token ++ " " ++ right.text ++ ")"

/-- The literal of a sentence that is one. -/
def asLiteral : Sentence → Option Literal
  | atomic (.literal l) => some l
  | _ => none

/-- The symbol of a sentence that is a positive literal. -/
def asSymbol : Sentence → Option Symbol
  | atomic (.literal ⟨symbol, false⟩) => some symbol
  | _ => none

/-- The truth value on a model. Both operands of a connective are evaluated, so that a symbol
without a value is an error wherever it occurs. -/
def evaluate : Sentence → Model → Except ModelError Bool
  | atomic atom, m => atom.evaluate m
  | negation operand, m => return !(← operand.evaluate m)
  | binary connective left right, m =>
    return connective.apply (← left.evaluate m) (← right.evaluate m)

/-- The names of the symbols of a sentence, one for each occurrence from left to right. -/
def symbolOccurrences : Sentence → List String
  | atomic atom => atom.symbols
  | negation operand => operand.symbolOccurrences
  | binary _ left right => left.symbolOccurrences ++ right.symbolOccurrences

/-- The names of the symbols of a sentence. -/
def symbols (s : Sentence) : SortedSet String :=
  .ofList s.symbolOccurrences

@[simp] theorem mem_symbols {s : Sentence} {name : String} :
    name ∈ s.symbols ↔ name ∈ s.symbolOccurrences :=
  SortedSet.mem_ofList

end Sentence

end Entailment
