/-!
# Settings

How a query is to be answered: the algorithm, what the DPLL algorithm makes of satisfiability, and
what forward chaining reports.
-/

namespace Entailment

/-- The algorithms that answer queries. -/
inductive Algorithm
  | truthTable
  | forwardChaining
  | backwardChaining
  | dpll
deriving DecidableEq

/-- What a search for models says about a query. -/
inductive Convention
  /-- The query follows if its negation is not satisfiable together with the knowledge base. -/
  | refutation
  /-- The query is found if it is satisfiable together with the knowledge base. -/
  | consistency
deriving DecidableEq

/-- Why a name selects nothing. -/
inductive SelectionError
  | unknownAlgorithm (name : String)
  | unknownConvention (name : String)
deriving DecidableEq

namespace Algorithm

/-- All algorithms. -/
def all : List Algorithm :=
  [truthTable, forwardChaining, backwardChaining, dpll]

/-- The name that selects an algorithm. -/
def name : Algorithm → String
  | truthTable => "TT"
  | forwardChaining => "FC"
  | backwardChaining => "BC"
  | dpll => "DPLL"

/-- The place of an algorithm among all of them. -/
def rank (a : Algorithm) : Nat :=
  all.idxOf a

/-- The algorithm of a name, in small or capital ASCII letters. -/
def ofName (name : String) : Except SelectionError Algorithm :=
  match all.find? (·.name = name.toUpper) with
  | some a => .ok a
  | none => .error (.unknownAlgorithm name)

end Algorithm

namespace Convention

/-- All conventions. -/
def all : List Convention :=
  [refutation, consistency]

/-- The name that selects a convention. -/
def name : Convention → String
  | refutation => "refutation"
  | consistency => "consistency"

/-- The place of a convention among all of them. -/
def rank (c : Convention) : Nat :=
  all.idxOf c

/-- The convention of a name, in small or capital ASCII letters. -/
def ofName (name : String) : Except SelectionError Convention :=
  match all.find? (·.name = name.toLower) with
  | some c => .ok c
  | none => .error (.unknownConvention name)

end Convention

/-- The wording of the error, which lists the valid names. -/
def SelectionError.message : SelectionError → String
  | unknownAlgorithm name =>
    let valid := ", ".intercalate (Algorithm.all.map Algorithm.name)
    s!"Algorithm with name {name} not found, valid algorithms are: {valid}"
  | unknownConvention name =>
    let valid := ", ".intercalate (Convention.all.map Convention.name)
    s!"Convention with name {name} not found, valid conventions are: {valid}"

/-- A named setting with its least and its greatest value. -/
structure Setting (α : Type) where
  name : String
  least : α
  greatest : α
  value : α

/-- The settings of a session. -/
structure Settings where
  algorithm : Setting Algorithm := ⟨"algorithm", .truthTable, .dpll, .truthTable⟩
  convention : Setting Convention := ⟨"convention", .refutation, .consistency, .refutation⟩
  /-- Whether forward chaining, once it has found the query, reports the symbols it has yet to
  look at. -/
  agendaInEntailed : Setting Bool := ⟨"agenda_in_entailed", false, true, true⟩

namespace Settings

instance : Inhabited Settings where
  default := {}

/-- The settings with another algorithm. -/
def withAlgorithm (s : Settings) (a : Algorithm) : Settings :=
  { s with algorithm := { s.algorithm with value := a } }

/-- The settings with another convention. -/
def withConvention (s : Settings) (c : Convention) : Settings :=
  { s with convention := { s.convention with value := c } }

/-- The settings with another choice of what forward chaining reports. -/
def withAgenda (s : Settings) (value : Bool) : Settings :=
  { s with agendaInEntailed := { s.agendaInEntailed with value } }

end Settings

end Entailment
