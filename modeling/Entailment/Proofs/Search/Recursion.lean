import Entailment.Proofs.Search.Confluence

/-!
# The search as a recursion

The stack of a search does what a recursion over branches would do. `Branch.solve` is that
recursion: it gives the model of a branch without clauses, fails where a clause is empty, and else
tries the half of the branch on which the first symbol is true, and the other half if that fails.
Each half is simplified and has fewer literals, so the recursion ends.

A stack gives what the recursion gives on the first of its branches that does not fail
(`explore_eq_findSome?`): the halves of a branch take its place on the stack in their order, so that
both are done with before anything below them is looked at.
-/

namespace Entailment

/-- The literal is the symbol of the clauses that comes first in the alphabet. -/
structure IsFirstSymbol (cs : List Clause) (l : Literal) : Prop where
  positive : l.negated = false
  occurs : ∃ c ∈ cs, l.name ∈ c.symbols
  first : ∀ c ∈ cs, ∀ name ∈ c.symbols, l.name ≤ name

theorem Literal.name_le_of_compare {l k : Literal} (h : compare l k = .lt) : l.name ≤ k.name := by
  have hs : (compare l.name k.name).then (compare l.negated k.negated) = .lt := h
  rcases Ordering.then_eq_lt.1 hs with hlt | ⟨heq, -⟩
  · exact String.not_lt.1 (String.lt_asymm (compareOfLessAndEq_eq_lt.1 hlt))
  · have same : l.name = k.name := Std.LawfulEqCmp.eq_of_compare heq
    exact same ▸ String.le_refl _

/-- The least member of a set of literals has no later name than any other. -/
theorem name_le_of_head? {s : SortedSet Literal} {l k : Literal} (h : s.toList.head? = some l)
    (hk : k ∈ s) : l.name ≤ k.name := by
  obtain ⟨ls, hs⟩ := List.head?_eq_some_iff.1 h
  have ha := s.ascending
  rw [hs] at ha
  rw [← SortedSet.mem_toList, hs] at hk
  rcases List.mem_cons.1 hk with rfl | hk
  · exact String.le_refl _
  · exact Literal.name_le_of_compare ((List.pairwise_cons.1 ha).1 k hk)

namespace Branch

variable {b : Branch} {l : Literal}

/-- The symbol that a branch is split at is the first one of its clauses. -/
theorem isFirstSymbol_of_choice? (h : b.choice? = some l) : IsFirstSymbol b.clauses l := by
  obtain ⟨k, hk, rfl⟩ := Option.map_eq_some_iff.1 h
  have ho : k ∈ occurringLiterals b.clauses :=
    SortedSet.mem_ofList.1 (SortedSet.mem_toList.1 (List.mem_of_head? hk))
  refine ⟨rfl, ?_, ?_⟩
  · obtain ⟨c, hc, hkc⟩ := exists_mem_of_occurring.1 ho
    exact ⟨c, hc, List.mem_map.2 ⟨k, hkc, rfl⟩⟩
  · intro c hc name hn
    obtain ⟨j, hj, rfl⟩ := List.mem_map.1 hn
    have hs : j ∈ SortedSet.ofList (occurringLiterals b.clauses) :=
      SortedSet.mem_ofList.2 (exists_mem_of_occurring.2 ⟨c, hc, hj⟩)
    exact name_le_of_head? (l := k) hk hs

theorem isSome_choice? (hn : b.clauses ≠ []) (he : ¬ b.hasEmptyClause = true) :
    b.choice?.isSome = true :=
  Option.isSome_iff_ne_none.2 (choice?_ne_none (mt List.isEmpty_iff.1 hn) he)

/-! ## The recursion -/

/-- The model that the search for one finds from a branch on, if it finds one. -/
def solve (b : Branch) : Option Model :=
  if satisfied : b.clauses = [] then some b.model
  else if failed : b.hasEmptyClause = true then none
  else
    let l := b.choice?.get (isSome_choice? satisfied failed)
    match (b.assign l).simplify.solve with
    | some m => some m
    | none => (b.assign l.negate).simplify.solve
termination_by b.occurrences
decreasing_by
  · exact (occurrences_split_lt (Option.some_get _).symm).1
  · exact (occurrences_split_lt (Option.some_get _).symm).2

theorem solve_of_clauses_eq_nil (h : b.clauses = []) : b.solve = some b.model := by
  rw [solve, dif_pos h]

theorem solve_of_hasEmptyClause (h : b.hasEmptyClause = true) : b.solve = none := by
  rw [solve, dif_neg (clauses_ne_nil_of_hasEmptyClause h), dif_pos h]

/-- The half on which the symbol is true comes first, and its model is the one found if it has
one. -/
theorem solve_of_choice? (he : b.hasEmptyClause ≠ true) (hl : b.choice? = some l) :
    b.solve = [(b.assign l).simplify, (b.assign l.negate).simplify].findSome? solve := by
  rw [solve, dif_neg (clauses_ne_nil_of_choice? hl), dif_neg he]
  simp only [hl, Option.get_some, List.findSome?_cons, List.findSome?_nil]
  cases (b.assign l).simplify.solve with
  | some m => rfl
  | none => cases (b.assign l.negate).simplify.solve <;> rfl

/-- A stack gives what the recursion gives on the first of its branches that does not fail. -/
theorem explore_eq_findSome? (stack : List Branch) : explore stack = stack.findSome? solve := by
  fun_induction explore stack with
  | case1 => rfl
  | case2 b stack hc =>
    rw [List.findSome?_cons, solve_of_clauses_eq_nil (List.isEmpty_iff.1 hc)]
  | case3 b stack _ he ih => rw [ih, List.findSome?_cons, solve_of_hasEmptyClause he]
  | case4 b stack hc he hn => exact absurd hn (choice?_ne_none hc he)
  | case5 b stack _ he l hl ih =>
    have halves := solve_of_choice? he hl
    calc
      _ = ((b.assign l).simplify :: (b.assign l.negate).simplify :: stack).findSome? solve := ih
      _ = b.solve.or (stack.findSome? solve) := by
        rw [halves, ← List.findSome?_append]
        rfl
      _ = (b :: stack).findSome? solve := by
        rw [List.findSome?_cons]
        cases b.solve <;> rfl

/-- A turn puts the halves of an unfinished branch in its place. -/
theorem nextStack?_of_choice? (he : b.hasEmptyClause ≠ true) (hl : b.choice? = some l)
    (stack : List Branch) :
    nextStack? (b :: stack) =
      some ((b.assign l).simplify :: (b.assign l.negate).simplify :: stack) := by
  have hn := clauses_ne_nil_of_choice? hl
  rw [nextStack?, if_neg (mt List.isEmpty_iff.1 hn), if_neg he, hl]

end Branch

/-! ## The search -/

open Branch

/-- A search gives what the recursion gives on the simplified clauses. No branch is dropped before
it is satisfied or has failed: until then it has a symbol to be split at, the first one of its
clauses, and the next turn puts its halves in its place. -/
theorem search_eq_solve (cs : List Clause) (symbols : List String) :
    (search cs symbols).model = (root cs symbols).simplify.solve ∧
    (search cs symbols).satisfiable = (root cs symbols).simplify.solve.isSome ∧
    ∀ b : Branch, b.clauses ≠ [] → b.hasEmptyClause ≠ true →
      ∃ l, b.choice? = some l ∧ IsFirstSymbol b.clauses l ∧ ∀ stack, nextStack? (b :: stack) =
        some ((b.assign l).simplify :: (b.assign l.negate).simplify :: stack) := by
  have hm : (search cs symbols).model = (root cs symbols).simplify.solve := by
    rw [model_search, explore_eq_findSome?, List.findSome?_cons]
    cases (root cs symbols).simplify.solve <;> rfl
  refine ⟨hm, by rw [satisfiable_search, hm], ?_⟩
  intro b hn he
  obtain ⟨l, hl⟩ := exists_choice? hn (by simpa using he)
  exact ⟨l, hl, isFirstSymbol_of_choice? hl, nextStack?_of_choice? he hl⟩

end Entailment
