import Entailment.ClauseBase
import Entailment.Dpll.Search
import Entailment.Settings

/-!
# Queries by search for models

A search for models answers a query by a convention. Under refutation the query follows from the
knowledge base if no model satisfies it together with the negation of the query; under consistency
it is found if some model satisfies both.
-/

namespace Entailment

/-- The clauses whose satisfiability answers a query. -/
def queryClauses (base : ClauseBase) (query : Sentence) : Convention → List Clause
  | .refutation => base.extended (Sentence.negation query).clauses
  | .consistency => base.extended query.clauses

/-- The answer to a query by search for models. -/
structure DpllReport where
  found : Bool
  convention : Convention
  outcome : Outcome
deriving DecidableEq

/-- Answers a query by search for models. -/
def dpllQuery (base : ClauseBase) (query : Sentence) (convention : Convention) : DpllReport :=
  let outcome := search (queryClauses base query convention) base.symbols.toList
  { found := match convention with
      | .refutation => !outcome.satisfiable
      | .consistency => outcome.satisfiable
    convention
    outcome }

end Entailment
