import Entailment.Clause
import Entailment.Sentence.Distribution
import Entailment.Sentence.Expansion
import Entailment.Sentence.NegationForm

/-!
# The clauses of a sentence

A sentence becomes a list of clauses whose conjunction is equivalent to it: connectives are
expanded, negations pushed to the atoms and absorbed there, disjunctions distributed, and the
result is taken apart at its conjunctions and then at its disjunctions.

Constants vanish in the last step. A disjunction with the constant `True` is no clause, and the
constant `False` is left out of the disjunction it is in.
-/

namespace Entailment.Sentence

/-- The largest parts of a sentence that the connective does not join, from left to right. -/
def partsAt (connective : Connective) : Sentence → List Sentence
  | binary c left right =>
    if c = connective then left.partsAt connective ++ right.partsAt connective
    else [binary c left right]
  | s => [s]

/-- The clause of a list of disjuncts, unless one of them is the constant `True`. Only literals go
into the clause. -/
def clauseOf? (disjuncts : List Sentence) : Option Clause :=
  if constant true ∈ disjuncts then none else some (Clause.ofList (disjuncts.filterMap asLiteral))

/-- The clauses of a conjunction of disjunctions. -/
def flatten (s : Sentence) : List Clause :=
  (s.partsAt .conjunction).filterMap fun conjunct => clauseOf? (conjunct.partsAt .disjunction)

/-- An equivalent sentence that is a conjunction of disjunctions of atoms. -/
def clausalForm (s : Sentence) : Sentence :=
  s.expandBiconditionals.expandImplications.pushNegations.absorbNegations.distribute

/-- The clauses whose conjunction is equivalent to the sentence. -/
def clauses (s : Sentence) : List Clause :=
  s.clausalForm.flatten

end Entailment.Sentence
