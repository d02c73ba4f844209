import Entailment.Model

/-!
# Reports of truth tables

A report lists the models on which the knowledge base and the query are true, in ascending order,
and says how many models the knowledge base has, whether or not the query is true on them. Its
table has a column for each symbol and a row for each model.
-/

namespace Entailment

/-- The answer to a query by truth table. -/
structure TableReport where
  /-- The symbols of the models. -/
  symbols : List String
  /-- The models on which the knowledge base and the query are true. -/
  models : List Model
  /-- The number of models of the knowledge base. -/
  kbModelCount : Nat
deriving DecidableEq

namespace TableReport

/-- The report of some models, which are put in order. -/
def ofModels (symbols : List String) (models : List Model) (kbModelCount : Nat) : TableReport where
  symbols
  models := models.mergeSort fun m n => (compare m n).isLE
  kbModelCount

/-- The query is found if it is true on some model of the knowledge base. -/
def found (r : TableReport) : Bool :=
  !r.models.isEmpty

/-- The knowledge base entails the query if it has a model, and the query is true on every one. -/
def entails (r : TableReport) : Bool :=
  r.found && r.models.length == r.kbModelCount

/-- The least width of a column, for which `False` leaves one blank. -/
def leastColumnWidth : Nat :=
  6

/-- The width of the columns, which is that of the longest symbol in bytes if that is larger. -/
def columnWidth (r : TableReport) : Nat :=
  r.symbols.foldl (fun width symbol => max width symbol.utf8ByteSize) leastColumnWidth

/-- A cell of the table, filled up with blanks to the width in characters. -/
def cell (width : Nat) (content : String) : String :=
  content ++ String.ofList (List.replicate (width - content.length) ' ') ++ "| "

/-- The models as a table. -/
def table (r : TableReport) : String :=
  if r.models.isEmpty then "There were no suitable models found to print the table"
  else
    let row (contents : List String) := String.join (contents.map (cell r.columnWidth))
    let rows := r.models.map fun m =>
      row (r.symbols.map fun symbol => valueText (m.assigned symbol))
    "\n".intercalate (row r.symbols :: rows)

end TableReport

end Entailment
