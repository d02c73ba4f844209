import Entailment.Sentence.Basic

/-!
# Expansion of connectives

The first two steps on the way to clauses write biconditionals as pairs of implications, and
implications as disjunctions. Both work from the leaves up, so that one pass leaves none.
-/

namespace Entailment.Sentence

/-- Writes every `A <=> B` as `(A => B) & (B => A)`. -/
def expandBiconditionals : Sentence → Sentence
  | atomic atom => atomic atom
  | negation operand => negation operand.expandBiconditionals
  | binary .biconditional left right =>
    let left := left.expandBiconditionals
    let right := right.expandBiconditionals
    binary .conjunction (binary .implication left right) (binary .implication right left)
  | binary connective left right =>
    binary connective left.expandBiconditionals right.expandBiconditionals

/-- Writes every `A => B` as `~A || B`. -/
def expandImplications : Sentence → Sentence
  | atomic atom => atomic atom
  | negation operand => negation operand.expandImplications
  | binary .implication left right =>
    binary .disjunction (negation left.expandImplications) right.expandImplications
  | binary connective left right =>
    binary connective left.expandImplications right.expandImplications

end Entailment.Sentence
