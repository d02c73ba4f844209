/-!
# Parse errors

Why a text is no sentence. Each cause carries the part of the text at fault.
-/

namespace Entailment

/-- Why a text is no sentence, or no literal. -/
inductive ParseError
  /-- A sentence was expected, and there is no text. -/
  | empty
  /-- A text stands where a symbol must stand and is none. -/
  | notSymbol (text : String)
  /-- The bracket opened at a byte offset is not closed. -/
  | unmatchedBracket (offset : Nat)
  /-- A text that is not atomic has no operator where one must stand. -/
  | noOperator (text : String)
  /-- A connective of the text lacks the operand on one of its sides. -/
  | missingOperand (text : String)
deriving DecidableEq

/-- The wording of the error. -/
def ParseError.message : ParseError → String
  | .empty => "Expected a sentence, found nothing"
  | .notSymbol text => s!"{text} is not a valid propositional symbol"
  | .unmatchedBracket offset => s!"No closing bracket for the opening bracket at {offset}"
  | .noOperator text => s!"Could not find an operator in {text}"
  | .missingOperand text => s!"Missing operand in {text}"

end Entailment
