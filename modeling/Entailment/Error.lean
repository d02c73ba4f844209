import Entailment.Document
import Entailment.Horn.Basic
import Entailment.Settings

/-!
# Errors

The errors of a session, each by the part of the library that it comes from.
-/

namespace Entailment

/-- Why a step of a session fails. -/
inductive Error
  | parse (error : ParseError)
  | horn (error : HornError)
  | selection (error : SelectionError)
  | model (error : ModelError)
  | document (error : DocumentError)
deriving DecidableEq

/-- The wording of the error. -/
def Error.message : Error → String
  | parse e => e.message
  | horn e => e.message
  | selection e => e.message
  | model e => e.message
  | document e => e.message

end Entailment
