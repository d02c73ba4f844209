import Entailment.Literal

/-!
# Clauses

A clause is a list of distinct literals, read as their disjunction; the empty clause is false. The
order of the literals is that of their first occurrence, and two clauses are equal only if they
list the same literals in the same order.
-/

namespace Entailment

/-- A disjunction of distinct literals. -/
structure Clause where
  literals : List Literal
  nodup : literals.Nodup
deriving DecidableEq

namespace Clause

@[ext] theorem ext {c d : Clause} (same : c.literals = d.literals) : c = d := by
  cases c
  cases d
  cases same
  rfl

/-- The clause without literals. -/
def empty : Clause :=
  ⟨[], List.nodup_nil⟩

/-- The clause of one literal. -/
def single (l : Literal) : Clause :=
  ⟨[l], List.pairwise_singleton _ _⟩

/-- Adds a literal at the end, unless the clause has it. -/
def push (c : Clause) (l : Literal) : Clause :=
  if fresh : l ∈ c.literals then c
  else ⟨c.literals ++ [l], by
    refine List.nodup_append.2 ⟨c.nodup, List.pairwise_singleton _ _, fun k hk j hj => ?_⟩
    rintro rfl
    exact fresh (List.mem_singleton.1 hj ▸ hk)⟩

/-- The clause of a list of literals, each at its first occurrence. -/
def ofList (ls : List Literal) : Clause :=
  ls.foldl push empty

/-- The number of literals. -/
def size (c : Clause) : Nat :=
  c.literals.length

/-- The empty clause has no literal, and no model satisfies it. -/
def isEmpty (c : Clause) : Bool :=
  c.literals.isEmpty

/-- The literal of a clause that has only one. -/
def unit? (c : Clause) : Option Literal :=
  match c.literals with
  | [l] => some l
  | _ => none

/-- A clause is a tautology if it has some literal and its complement. -/
def isTautology (c : Clause) : Bool :=
  c.literals.any fun l => c.literals.any l.complements

/-- The names of the symbols, in the order of the literals. -/
def symbols (c : Clause) : List String :=
  c.literals.map Literal.name

/-- The truth value on a model. Every literal is evaluated, so that a symbol without a value is an
error wherever it occurs. -/
def evaluate (c : Clause) (m : Model) : Except ModelError Bool :=
  return (← c.literals.mapM (·.evaluate m)).any id

/-- What remains of a clause once a literal is true: nothing if the clause has the literal, since
the clause is then satisfied, and otherwise the clause without the complement of the literal. -/
def assign (c : Clause) (l : Literal) : Option Clause :=
  if l ∈ c.literals then none
  else some ⟨c.literals.filter (!·.complements l), c.nodup.filter _⟩

/-- The written form: the literals joined by the token of disjunction, or the constant that the
empty clause amounts to. -/
def text (c : Clause) : String :=
  if c.isEmpty then valueText (some false) else " || ".intercalate (c.literals.map Literal.text)

@[simp] theorem mem_push {c : Clause} {l k : Literal} :
    k ∈ (c.push l).literals ↔ k ∈ c.literals ∨ k = l := by
  unfold push
  split
  · next member =>
    constructor
    · exact .inl
    · rintro (h | rfl)
      · exact h
      · exact member
  · simp

theorem mem_foldl_push {ls : List Literal} {c : Clause} {k : Literal} :
    k ∈ (ls.foldl push c).literals ↔ k ∈ c.literals ∨ k ∈ ls := by
  induction ls generalizing c with
  | nil => simp
  | cons l ls ih => rw [List.foldl_cons, ih, mem_push, List.mem_cons, or_assoc]

/-- The literals of a clause are those of the list it is made from. -/
@[simp] theorem mem_ofList {ls : List Literal} {k : Literal} :
    k ∈ (ofList ls).literals ↔ k ∈ ls := by
  simp [ofList, mem_foldl_push, empty]

theorem isTautology_iff {c : Clause} :
    c.isTautology ↔ ∃ l ∈ c.literals, l.negate ∈ c.literals := by
  simp [isTautology, Literal.complements_iff]

theorem assign_eq_none_iff {c : Clause} {l : Literal} : c.assign l = none ↔ l ∈ c.literals := by
  unfold assign
  split <;> simp_all

theorem mem_of_assign {c d : Clause} {l k : Literal} (h : c.assign l = some d) :
    k ∈ d.literals ↔ k ∈ c.literals ∧ k ≠ l.negate := by
  unfold assign at h
  split at h
  · cases h
  · cases h
    have comm : k.complements l ↔ k = l.negate := by
      rw [Literal.complements_iff]
      exact ⟨fun h => by simp [h], fun h => by simp [h]⟩
    simp [← comm]

end Clause

/-- Leaves out the tautologies, and every clause that occurs further left. -/
def filterClauses (cs : List Clause) : List Clause :=
  (cs.filter (!·.isTautology)).eraseDups

theorem mem_filterClauses {cs : List Clause} {c : Clause} :
    c ∈ filterClauses cs ↔ c ∈ cs ∧ c.isTautology = false := by
  simp [filterClauses]

end Entailment
