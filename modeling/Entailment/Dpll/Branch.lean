import Entailment.Clause

/-!
# Branches of a search for models

A branch holds what remains of the clauses after some literals were taken to be true, and a model
that records these literals. `Branch.simplify` takes literals whose truth costs nothing: the unit
clauses first, one at a time, and then the pure literals, whose complements do not occur.

Assigning a literal that occurs never lengthens the list of clauses and always lowers the number
of literals in it (`occurrences_assign_lt`); both simplifications and the search end by that.
-/

namespace Entailment

/-- The literals of a list of clauses, occurrence by occurrence. -/
def occurringLiterals (cs : List Clause) : List Literal :=
  cs.flatMap Clause.literals

theorem occurringLiterals_cons (c : Clause) (cs : List Clause) :
    occurringLiterals (c :: cs) = c.literals ++ occurringLiterals cs :=
  List.flatMap_cons

/-- The literals whose complements do not occur, each at its first occurrence. -/
def pureLiterals (cs : List Clause) : List Literal :=
  ((occurringLiterals cs).filter fun l => l.negate ∉ occurringLiterals cs).eraseDups

/-- The names of the symbols that occur with one polarity only, the given one. -/
def pureSymbols (polarity : Bool) (cs : List Clause) : SortedSet String :=
  .ofList (((pureLiterals cs).filter (·.polarity = polarity)).map Literal.name)

/-- A part of the search: clauses that remain to be satisfied, and the assignments made so far. -/
structure Branch where
  clauses : List Clause
  model : Model
deriving DecidableEq

namespace Branch

/-- Takes a literal to be true. -/
def assign (b : Branch) (l : Literal) : Branch where
  clauses := b.clauses.filterMap (·.assign l)
  model := b.model.set l.name l.polarity

/-- Whether the branch has failed, because some clause has no literal left. -/
def hasEmptyClause (b : Branch) : Bool :=
  b.clauses.any Clause.isEmpty

/-- The literal of the first unit clause. -/
def unit? (b : Branch) : Option Literal :=
  b.clauses.findSome? Clause.unit?

/-- The number of literals in the clauses. -/
def occurrences (b : Branch) : Nat :=
  (occurringLiterals b.clauses).length

theorem length_assign_le (b : Branch) (l : Literal) :
    (b.assign l).clauses.length ≤ b.clauses.length :=
  List.length_filterMap_le _ _

/-- Assigning a literal of some clause leaves fewer clauses. -/
theorem length_assign_lt {b : Branch} {c : Clause} {l : Literal} (hc : c ∈ b.clauses)
    (hl : l ∈ c.literals) : (b.assign l).clauses.length < b.clauses.length :=
  List.length_filterMap_lt_length_iff_exists.2 ⟨c, hc, Clause.assign_eq_none_iff.2 hl⟩

theorem exists_mem_of_unit? {b : Branch} {l : Literal} (h : b.unit? = some l) :
    ∃ c ∈ b.clauses, l ∈ c.literals := by
  obtain ⟨c, hc, unit⟩ := List.exists_of_findSome?_eq_some h
  refine ⟨c, hc, ?_⟩
  unfold Clause.unit? at unit
  split at unit
  · next single =>
    cases unit
    simp [single]
  · cases unit

theorem exists_mem_of_occurring {cs : List Clause} {l : Literal} :
    l ∈ occurringLiterals cs ↔ ∃ c ∈ cs, l ∈ c.literals :=
  List.mem_flatMap

theorem mem_pureLiterals {cs : List Clause} {l : Literal} :
    l ∈ pureLiterals cs ↔ l ∈ occurringLiterals cs ∧ l.negate ∉ occurringLiterals cs := by
  simp [pureLiterals]

/-! ## Simplification -/

/-- Assigns the literal of the first unit clause, until there is none or some clause is empty. -/
def propagateUnits (b : Branch) : Branch :=
  if b.hasEmptyClause then b
  else match _unit : b.unit? with
    | none => b
    | some l => (b.assign l).propagateUnits
termination_by b.clauses.length
decreasing_by
  obtain ⟨c, hc, hl⟩ := exists_mem_of_unit? ‹_›
  exact length_assign_lt hc hl

theorem length_foldl_assign_le (b : Branch) (ls : List Literal) :
    (ls.foldl assign b).clauses.length ≤ b.clauses.length := by
  induction ls generalizing b with
  | nil => exact Nat.le_refl _
  | cons l ls ih => exact Nat.le_trans (ih _) (b.length_assign_le l)

theorem length_assign_pure_lt {b : Branch} {l : Literal} {ls : List Literal}
    (h : pureLiterals b.clauses = l :: ls) :
    ((l :: ls).foldl assign b).clauses.length < b.clauses.length := by
  have occurs := (mem_pureLiterals.1 (h ▸ List.mem_cons_self : l ∈ pureLiterals b.clauses)).1
  obtain ⟨c, hc, hl⟩ := exists_mem_of_occurring.1 occurs
  exact Nat.lt_of_le_of_lt (length_foldl_assign_le _ ls) (length_assign_lt hc hl)

/-- Assigns all pure literals, again and again, until there is none or some clause is empty. -/
def assignPure (b : Branch) : Branch :=
  if b.hasEmptyClause then b
  else match _pure : pureLiterals b.clauses with
    | [] => b
    | l :: ls => ((l :: ls).foldl assign b).assignPure
termination_by b.clauses.length
decreasing_by exact length_assign_pure_lt ‹_›

/-- Propagates units, and then assigns pure literals. -/
def simplify (b : Branch) : Branch :=
  b.propagateUnits.assignPure

/-- The positive literal of the alphabetically first symbol of the clauses. -/
def choice? (b : Branch) : Option Literal :=
  (SortedSet.ofList (occurringLiterals b.clauses)).toList.head?.map Literal.unsigned

/-! ## The number of literals sinks -/

theorem length_le_of_assign {c d : Clause} {l : Literal} (h : c.assign l = some d) :
    d.literals.length ≤ c.literals.length := by
  unfold Clause.assign at h
  split at h
  · cases h
  · cases h
    exact List.length_filter_le _ _

theorem length_lt_of_assign {c d : Clause} {l : Literal} (h : c.assign l = some d)
    (hl : l.negate ∈ c.literals) : d.literals.length < c.literals.length := by
  unfold Clause.assign at h
  split at h
  · cases h
  · cases h
    refine List.length_filter_lt_length_iff_exists.2 ⟨l.negate, hl, ?_⟩
    simp [Literal.complements_iff]

theorem occurrences_assign_le (b : Branch) (l : Literal) :
    (b.assign l).occurrences ≤ b.occurrences := by
  obtain ⟨cs, m⟩ := b
  simp only [occurrences, assign]
  induction cs with
  | nil => exact Nat.le_refl _
  | cons c cs ih =>
    cases h : c.assign l with
    | none =>
      simp only [List.filterMap_cons, h, occurringLiterals_cons, List.length_append]
      omega
    | some d =>
      have := length_le_of_assign h
      simp only [List.filterMap_cons, h, occurringLiterals_cons, List.length_append]
      omega

/-- Assigning a literal that occurs, or whose complement does, leaves fewer literals. -/
theorem occurrences_assign_lt {b : Branch} {l : Literal}
    (h : l ∈ occurringLiterals b.clauses ∨ l.negate ∈ occurringLiterals b.clauses) :
    (b.assign l).occurrences < b.occurrences := by
  obtain ⟨cs, m⟩ := b
  have witness : ∃ c ∈ cs, l ∈ c.literals ∨ l.negate ∈ c.literals := by
    rcases h with hl | hl
    · obtain ⟨c, hc, hl⟩ := exists_mem_of_occurring.1 hl
      exact ⟨c, hc, .inl hl⟩
    · obtain ⟨c, hc, hl⟩ := exists_mem_of_occurring.1 hl
      exact ⟨c, hc, .inr hl⟩
  clear h
  simp only [occurrences, assign]
  induction cs with
  | nil => simp at witness
  | cons c cs ih =>
    have rest := occurrences_assign_le ⟨cs, m⟩ l
    simp only [occurrences, assign] at rest
    by_cases here : l ∈ c.literals ∨ l.negate ∈ c.literals
    · -- This clause vanishes or gets shorter, and the others do not grow.
      cases h : c.assign l with
      | none =>
        have := List.length_pos_of_mem (Clause.assign_eq_none_iff.1 h)
        simp only [List.filterMap_cons, h, occurringLiterals_cons, List.length_append]
        omega
      | some d =>
        have absent : l ∉ c.literals := fun hl => by simp [Clause.assign_eq_none_iff.2 hl] at h
        have := length_lt_of_assign h (here.resolve_left absent)
        simp only [List.filterMap_cons, h, occurringLiterals_cons, List.length_append]
        omega
    · -- This clause does not grow, and some clause further right gets shorter.
      have later : ∃ c ∈ cs, l ∈ c.literals ∨ l.negate ∈ c.literals := by
        obtain ⟨d, hd, hl⟩ := witness
        rcases List.mem_cons.1 hd with rfl | hd
        · exact absurd hl here
        · exact ⟨d, hd, hl⟩
      have := ih later
      cases h : c.assign l with
      | none =>
        simp only [List.filterMap_cons, h, occurringLiterals_cons, List.length_append]
        omega
      | some d =>
        have := length_le_of_assign h
        simp only [List.filterMap_cons, h, occurringLiterals_cons, List.length_append]
        omega

theorem occurrences_propagateUnits_le (b : Branch) :
    b.propagateUnits.occurrences ≤ b.occurrences := by
  fun_induction propagateUnits b with
  | case1 | case2 => exact Nat.le_refl _
  | case3 b _ l _ ih => exact Nat.le_trans ih (b.occurrences_assign_le l)

theorem occurrences_foldl_assign_le (b : Branch) (ls : List Literal) :
    (ls.foldl assign b).occurrences ≤ b.occurrences := by
  induction ls generalizing b with
  | nil => exact Nat.le_refl _
  | cons l ls ih => exact Nat.le_trans (ih _) (b.occurrences_assign_le l)

theorem occurrences_assignPure_le (b : Branch) : b.assignPure.occurrences ≤ b.occurrences := by
  fun_induction assignPure b with
  | case1 | case2 => exact Nat.le_refl _
  | case3 b _ l ls _ ih => exact Nat.le_trans ih (b.occurrences_foldl_assign_le (l :: ls))

theorem occurrences_simplify_le (b : Branch) : b.simplify.occurrences ≤ b.occurrences :=
  Nat.le_trans (occurrences_assignPure_le _) b.occurrences_propagateUnits_le

/-- The literal chosen occurs, or its complement does. -/
theorem occurs_of_choice? {b : Branch} {l : Literal} (h : b.choice? = some l) :
    l ∈ occurringLiterals b.clauses ∨ l.negate ∈ occurringLiterals b.clauses := by
  obtain ⟨k, least, rfl⟩ := Option.map_eq_some_iff.1 h
  have occurs : k ∈ occurringLiterals b.clauses :=
    SortedSet.mem_ofList.1 (SortedSet.mem_toList.1 (List.mem_of_head? least))
  obtain ⟨symbol, negated⟩ := k
  cases negated
  · exact .inl occurs
  · exact .inr occurs

end Branch

end Entailment
