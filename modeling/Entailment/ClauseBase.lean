import Entailment.KnowledgeBase
import Entailment.Sentence.Clausal

/-!
# Knowledge bases as clauses

A clause base holds the clauses of all sentences of a knowledge base, less tautologies and repeated
clauses. Clauses that vanish take no symbol with them: the symbols are those of the knowledge base.
-/

namespace Entailment

/-- Clauses taken to be true, and the symbols that a model of them speaks about. -/
structure ClauseBase where
  clauses : List Clause
  symbols : SortedSet String

namespace ClauseBase

/-- The clause base of a list of clauses, with the symbols that occur in them once filtered. -/
def ofClauses (cs : List Clause) : ClauseBase where
  clauses := filterClauses cs
  symbols := .ofList ((filterClauses cs).flatMap Clause.symbols)

/-- The clauses of a knowledge base. -/
def ofKnowledgeBase (kb : KnowledgeBase) : ClauseBase :=
  let base := ofClauses (kb.sentences.flatMap Sentence.clauses)
  { base with symbols := base.symbols.union kb.symbolNames }

/-- The clauses together with some more, less tautologies and repeated clauses. -/
def extended (base : ClauseBase) (extra : List Clause) : List Clause :=
  filterClauses (base.clauses ++ extra)

/-- The written form: each clause on a line. -/
def text (base : ClauseBase) : String :=
  String.join (base.clauses.map (·.text ++ "\n"))

end ClauseBase

end Entailment
