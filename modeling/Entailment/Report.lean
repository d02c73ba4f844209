import Entailment.Dpll.Query
import Entailment.TruthTable.Report
import Entailment.Horn.Basic

/-!
# Reports

Every algorithm gives a report of its own. Its line begins with the verdict on the query, and its
details say how the verdict came about.
-/

namespace Entailment

/-- The verdict on a query. -/
def verdict (found : Bool) : String :=
  if found then "YES" else "NO"

/-- What the line of a report says behind the verdict: the number of models found. -/
def TableReport.remark (r : TableReport) : String :=
  s!": {r.models.length}"

/-- What the line of a report says behind the verdict: the symbols shown to follow, if any. -/
def ChainingReport.remark (r : ChainingReport) : String :=
  if r.entailed.toList.isEmpty then ""
  else ": " ++ ", ".intercalate (r.entailed.toList.map Symbol.name)

/-- The answer to a query. -/
inductive Report
  | table (report : TableReport)
  | chaining (report : ChainingReport)
  | dpll (report : DpllReport)
deriving DecidableEq

namespace Report

/-- Whether the query was found. -/
def found : Report → Bool
  | table r => r.found
  | chaining r => r.found
  | dpll r => r.found

/-- What the line of the report says behind the verdict. -/
def remark : Report → String
  | table r => r.remark
  | chaining r => r.remark
  | dpll _ => ""

/-- The line that answers the query. -/
def line (r : Report) : String :=
  verdict r.found ++ r.remark

/-- What lies behind the answer: the table, the number of symbols shown to follow, or what the
search for models left and found. -/
def details : Report → String
  | table r =>
    s!"{r.table}\n{r.models.length} of {r.kbModelCount} knowledge base models are valid"
  | chaining r => s!"{r.entailed.size} literals entailed"
  | dpll r =>
    let residual := "\n".intercalate (r.outcome.residual.map Clause.text)
    let model := match r.outcome.model with
      | some m => "\nModel: " ++ m.text
      | none => ""
    "\n".intercalate [s!"Convention: {r.convention.name}",
      s!"Satisfiable: {r.outcome.satisfiable}", "Residual clauses:", residual] ++ model

end Report

end Entailment
