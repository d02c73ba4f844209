import Entailment.Dpll.Branch

/-!
# The search for a model

`search` decides whether a list of clauses has a model. It simplifies the clauses and then keeps a
stack of branches: a branch without clauses gives the model, a branch with an empty clause is
dropped, and any other is split at its alphabetically first symbol, with the branch on which the
symbol is true on top.
-/

namespace Entailment

/-- The result of a search: whether the clauses are satisfiable, the clauses that remain after the
first simplification, and the model of the branch that satisfied them, if any did. -/
structure Outcome where
  satisfiable : Bool
  residual : List Clause
  model : Option Model
deriving DecidableEq

namespace Branch

/-- How many branches a search can look at, from one with so many literals down. -/
def reach : Nat → Nat
  | 0 => 1
  | n + 1 => 2 * reach n + 1

theorem reach_pos (n : Nat) : 0 < reach n := by
  cases n <;> simp [reach]

theorem reach_le_reach {k n : Nat} (le : k ≤ n) : reach k ≤ reach n := by
  induction le with
  | refl => exact Nat.le_refl _
  | step _ ih =>
    rw [reach]
    omega

/-- How many branches a search can look at before its stack is empty. -/
def stackReach : List Branch → Nat
  | [] => 0
  | b :: stack => reach b.occurrences + stackReach stack

theorem stackReach_lt (b : Branch) (stack : List Branch) :
    stackReach stack < stackReach (b :: stack) := by
  have := reach_pos b.occurrences
  rw [stackReach]
  omega

/-- Both halves of a branch have fewer literals. -/
theorem occurrences_split_lt {b : Branch} {l : Literal} (h : b.choice? = some l) :
    (b.assign l).simplify.occurrences < b.occurrences ∧
      (b.assign l.negate).simplify.occurrences < b.occurrences := by
  have occurs := occurs_of_choice? h
  constructor
  · exact Nat.lt_of_le_of_lt (occurrences_simplify_le _) (occurrences_assign_lt occurs)
  · refine Nat.lt_of_le_of_lt (occurrences_simplify_le _) (occurrences_assign_lt ?_)
    rw [Literal.negate_negate]
    exact occurs.symm

theorem stackReach_split_lt {b : Branch} {l : Literal} (h : b.choice? = some l)
    (stack : List Branch) :
    stackReach ((b.assign l).simplify :: (b.assign l.negate).simplify :: stack) <
      stackReach (b :: stack) := by
  obtain ⟨onTrue, onFalse⟩ := occurrences_split_lt h
  obtain ⟨n, eq⟩ : ∃ n, b.occurrences = n + 1 :=
    Nat.exists_eq_succ_of_ne_zero (Nat.ne_of_gt (Nat.zero_lt_of_lt onTrue))
  have := reach_le_reach (Nat.le_of_lt_succ (eq ▸ onTrue))
  have := reach_le_reach (Nat.le_of_lt_succ (eq ▸ onFalse))
  simp only [stackReach, eq, reach]
  omega

/-- Searches a stack of branches from its top, and gives the model of the first branch whose
clauses are all satisfied. -/
def explore : List Branch → Option Model
  | [] => none
  | b :: stack =>
    if b.clauses.isEmpty then some b.model
    else if b.hasEmptyClause then explore stack
    else match _choice : b.choice? with
      | none => explore stack
      | some l => explore ((b.assign l).simplify :: (b.assign l.negate).simplify :: stack)
termination_by stack => stackReach stack
decreasing_by
  · exact stackReach_lt b stack
  · exact stackReach_lt b stack
  · exact stackReach_split_lt ‹_› stack

/-- The branch that a search starts from: all clauses, and no symbol of them or of the given ones
with a value. -/
def root (cs : List Clause) (symbols : List String) : Branch where
  clauses := cs
  model := .unassigned (symbols ++ cs.flatMap Clause.symbols)

end Branch

/-- Searches for a model of the clauses, over their symbols and the given ones. -/
def search (cs : List Clause) (symbols : List String) : Outcome :=
  let start := (Branch.root cs symbols).simplify
  match Branch.explore [start] with
  | some m => { satisfiable := true, residual := start.clauses, model := some m }
  | none => { satisfiable := false, residual := start.clauses, model := none }

theorem model_search (cs : List Clause) (symbols : List String) :
    (search cs symbols).model = Branch.explore [(Branch.root cs symbols).simplify] := by
  cases h : Branch.explore [(Branch.root cs symbols).simplify] <;> simp only [search, h]

theorem satisfiable_search (cs : List Clause) (symbols : List String) :
    (search cs symbols).satisfiable = (search cs symbols).model.isSome := by
  cases h : Branch.explore [(Branch.root cs symbols).simplify] <;> simp only [search, h] <;> rfl

/-- Whether some model satisfies all clauses. -/
def satisfiable (cs : List Clause) : Bool :=
  (search cs []).satisfiable

end Entailment
