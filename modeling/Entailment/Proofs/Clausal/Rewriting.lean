import Entailment.Sentence.Expansion
import Entailment.Sentence.NegationForm

/-!
# The rules of the passes

The passes before distribution rewrite a sentence by five rules, anywhere in it. So a relation that
contains the rules and that negations and connectives keep (`RulesWithin`) relates what a pass gives
to what it gets. What two related sentences have in common is of no concern here.
-/

namespace Entailment.Sentence

/-- The relation composes, negations and connectives keep it, and it relates the right-hand side of
every rule to the left-hand side. -/
structure RulesWithin (R : Sentence → Sentence → Prop) : Prop where
  refl (s : Sentence) : R s s
  trans {s t u : Sentence} (h : R s t) (h' : R t u) : R s u
  negation {s t : Sentence} (h : R s t) : R (negation s) (negation t)
  binary (c : Connective) {s t s' t' : Sentence} (h : R s t) (h' : R s' t') :
    R (binary c s s') (binary c t t')
  ofBiconditional (a b : Sentence) :
    R (.binary .conjunction (.binary .implication a b) (.binary .implication b a))
      (.binary .biconditional a b)
  ofImplication (a b : Sentence) :
    R (.binary .disjunction (.negation a) b) (.binary .implication a b)
  ofDoubleNegation (a : Sentence) : R a (.negation (.negation a))
  ofDual {c d : Connective} (h : c.dual? = some d) (a b : Sentence) :
    R (.binary d (.negation a) (.negation b)) (.negation (.binary c a b))
  ofNegatedAtom (a : Atom) : R (.atomic a.negate) (.negation (.atomic a))

namespace RulesWithin

variable {R : Sentence → Sentence → Prop}

theorem expandBiconditionals (h : RulesWithin R) (s : Sentence) :
    R s.expandBiconditionals s := by
  fun_induction Sentence.expandBiconditionals s with
  | case1 a => exact h.refl _
  | case2 operand ih => exact h.negation ih
  | case3 left right _ _ ihl ihr =>
    exact h.trans (h.ofBiconditional _ _) (h.binary .biconditional ihl ihr)
  | case4 c left right _ ihl ihr => exact h.binary c ihl ihr

theorem expandImplications (h : RulesWithin R) (s : Sentence) : R s.expandImplications s := by
  fun_induction Sentence.expandImplications s with
  | case1 a => exact h.refl _
  | case2 operand ih => exact h.negation ih
  | case3 left right ihl ihr =>
    exact h.trans (h.ofImplication _ _) (h.binary .implication ihl ihr)
  | case4 c left right _ ihl ihr => exact h.binary c ihl ihr

theorem cancelNegations (h : RulesWithin R) (s : Sentence) : R s.cancelNegations s := by
  fun_induction Sentence.cancelNegations s with
  | case1 a => exact h.refl _
  | case2 inner ih => exact h.trans ih (h.ofDoubleNegation inner)
  | case3 operand _ ih => exact h.negation ih
  | case4 c left right ihl ihr => exact h.binary c ihl ihr

theorem signed (h : RulesWithin R) (negated : Bool) {s t : Sentence} (hs : R s t) :
    R (signed negated s) (signed negated t) := by
  cases negated
  · exact hs
  · exact h.negation hs

theorem deMorgan (h : RulesWithin R) (negated : Bool) (s : Sentence) :
    R (deMorgan negated s) (Sentence.signed negated s) := by
  induction s generalizing negated with
  | atomic a => exact h.refl _
  | negation operand ih => exact h.signed negated (ih true)
  | binary c left right ihl ihr =>
    simp only [Sentence.deMorgan]
    split
    · next d hd => exact h.trans (h.binary d (ihl true) (ihr true)) (h.ofDual hd left right)
    · exact h.signed _ (h.binary c (ihl false) (ihr false))

theorem pushNegations (h : RulesWithin R) (s : Sentence) : R s.pushNegations s := by
  fun_induction Sentence.pushNegations s with
  | case1 => exact h.refl _
  | case2 s _ _ ih =>
    exact h.trans ih (h.trans (h.deMorgan false _) (h.cancelNegations s))

theorem absorbNegations (h : RulesWithin R) (s : Sentence) : R s.absorbNegations s := by
  fun_induction Sentence.absorbNegations s with
  | case1 a => exact h.refl _
  | case2 a => exact h.ofNegatedAtom a
  | case3 operand _ ih => exact h.negation ih
  | case4 c left right ihl ihr => exact h.binary c ihl ihr

/-- All passes before distribution, one after the other. -/
theorem absorbed (h : RulesWithin R) (s : Sentence) :
    R s.expandBiconditionals.expandImplications.pushNegations.absorbNegations s :=
  h.trans (h.absorbNegations _) <| h.trans (h.pushNegations _) <|
    h.trans (h.expandImplications _) (h.expandBiconditionals s)

end RulesWithin

end Entailment.Sentence
