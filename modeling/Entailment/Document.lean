import Entailment.Text.Blank

/-!
# Documents

A document tells sentences and asks a query, in four lines:

    TELL
    sentences
    ASK
    query

Blanks around a line do not matter, and nothing behind the fourth line does. The lines are decoded
one after the other, so that bytes that are no text only matter in a line that is looked at.
-/

namespace Entailment

/-- Why a document cannot be read. -/
inductive DocumentError
  /-- Nothing can be opened at a path. -/
  | cannotOpen (path : String)
  /-- The line of a number, counted from one, cannot be read. -/
  | unreadableLine (number : Nat)
  | missingTell
  | missingAsk
  | missingQuery
deriving DecidableEq

/-- The wording of the error. -/
def DocumentError.message : DocumentError → String
  | cannotOpen path => s!"Could not open {path}"
  | unreadableLine number => s!"Failed to read line {number}"
  | missingTell => "First line must be \"TELL\""
  | missingAsk => "Third line must be \"ASK\""
  | missingQuery => "No query follows \"ASK\""

/-- The sentences and the query of a document, as texts. -/
structure Document where
  sentences : String
  query : String
deriving DecidableEq

namespace Document

/-- The byte that ends a line. -/
def newline : UInt8 :=
  10

/-- The first line, and the bytes behind the newline that ends it, if there are any bytes. -/
def splitLine (bytes : List UInt8) : Option (List UInt8 × List UInt8) :=
  if bytes.isEmpty then none
  else some (bytes.takeWhile (· != newline), (bytes.dropWhile (· != newline)).drop 1)

/-- The text of a line without the blanks around it. -/
def decodeLine (line : List UInt8) : Option String :=
  (String.fromUTF8? ⟨line.toArray⟩).map fun text => String.ofList (Text.trimBlanks text.toList)

/-- Reads the line of a number, if there is one. -/
def readLine (number : Nat) (bytes : List UInt8) :
    Except DocumentError (Option String × List UInt8) :=
  match splitLine bytes with
  | none => .ok (none, [])
  | some (line, rest) =>
    match decodeLine line with
    | some text => .ok (some text, rest)
    | none => .error (.unreadableLine number)

/-- Reads a document. -/
def read (bytes : List UInt8) : Except DocumentError Document := do
  let (tellLine, bytes) ← readLine 1 bytes
  unless tellLine = some "TELL" do throw .missingTell
  let (sentencesLine, bytes) ← readLine 2 bytes
  let some sentences := sentencesLine | throw .missingAsk
  let (askLine, bytes) ← readLine 3 bytes
  unless askLine = some "ASK" do throw .missingAsk
  let (queryLine, _) ← readLine 4 bytes
  let some query := queryLine | throw .missingQuery
  if query.isEmpty then throw .missingQuery
  return { sentences, query }

end Document

end Entailment
