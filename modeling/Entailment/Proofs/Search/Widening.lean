import Entailment.Proofs.Search.Confluence

/-!
# Symbols without clauses

A search that is given more symbols takes the same course. The clauses alone decide what is assigned
and where to go on, and the model is only written to. So the verdict and the residual are the same,
and so is the model, but for the symbols that were added and stay without a value (`search_widen`).
-/

namespace Entailment

namespace Model

variable {m : Model} {names : List String} {name : String}

/-- The model with some symbols added. Those that it lacked have no value. -/
def widen (m : Model) (names : List String) : Model :=
  names.foldl (fun m name => if name ∈ m then m else m.insert name none) m

/-- The symbols that the model has keep their entries, and those that are added have no value. -/
theorem get?_widen (m : Model) (names : List String) (name : String) :
    (m.widen names).get? name = (m.get? name).or (if name ∈ names then some none else none) := by
  induction names generalizing m with
  | nil => rw [if_neg List.not_mem_nil, Option.or_none, widen, List.foldl_nil]
  | cons first names ih =>
    rw [widen, List.foldl_cons, ← widen, ih]
    by_cases known : first ∈ m
    · rw [if_pos known]
      by_cases eq : name = first
      · -- The symbol is known, so that it does not matter whether it is added once more.
        obtain ⟨value, hv⟩ := SortedMap.mem_iff_get?.1 (eq ▸ known)
        rw [hv, Option.some_or, Option.some_or]
      · simp only [List.mem_cons, eq, false_or]
    · rw [if_neg known, SortedMap.get?_insert]
      by_cases eq : name = first
      · have lacks : m.get? name = none := SortedMap.get?_eq_none_iff.2 (eq ▸ known)
        simp [eq, eq ▸ lacks]
      · simp only [List.mem_cons, eq, false_or, if_false]

theorem set_widen (m : Model) (names : List String) (name : String) (value : Bool) :
    (m.widen names).set name value = (m.set name value).widen names := by
  apply SortedMap.ext
  intro other
  rw [set, SortedMap.get?_insert, get?_widen, get?_widen, set, SortedMap.get?_insert]
  split <;> rfl

theorem unassigned_eq_widen {xs ys : List String}
    (h : ∀ name, name ∈ ys ↔ name ∈ xs ∨ name ∈ names) :
    unassigned ys = (unassigned xs).widen names := by
  apply SortedMap.ext
  intro name
  rw [get?_widen, unassigned, unassigned, SortedMap.get?_const, SortedMap.get?_const]
  by_cases hx : name ∈ xs <;> by_cases hn : name ∈ names <;> simp [h, hx, hn]

end Model

namespace Branch

variable {b : Branch} {names : List String}

/-- The branch with some symbols added to its model. -/
def widen (b : Branch) (names : List String) : Branch where
  clauses := b.clauses
  model := b.model.widen names

theorem assign_widen (b : Branch) (names : List String) (l : Literal) :
    (b.widen names).assign l = (b.assign l).widen names := by
  rw [assign, assign, widen, widen, Model.set_widen]

theorem foldl_assign_widen (b : Branch) (names : List String) (ls : List Literal) :
    ls.foldl assign (b.widen names) = (ls.foldl assign b).widen names := by
  induction ls generalizing b with
  | nil => rfl
  | cons l ls ih => rw [List.foldl_cons, List.foldl_cons, assign_widen, ih]

theorem propagateUnits_widen (b : Branch) (names : List String) :
    (b.widen names).propagateUnits = b.propagateUnits.widen names := by
  fun_induction propagateUnits b with
  | case1 b he => exact propagateUnits_of_hasEmptyClause he
  | case2 b _ hu => exact propagateUnits_of_noUnits (unit?_eq_none_iff.1 hu)
  | case3 b he l hu ih =>
    have step : (b.widen names).propagateUnits = ((b.widen names).assign l).propagateUnits :=
      propagateUnits_of_unit? he hu
    rw [step, assign_widen, ih]

theorem assignPure_widen (b : Branch) (names : List String) :
    (b.widen names).assignPure = b.assignPure.widen names := by
  fun_induction assignPure b with
  | case1 b he => exact assignPure_of_hasEmptyClause he
  | case2 b _ hp => exact assignPure_of_pureLiterals_eq_nil hp
  | case3 b he l ls hp ih =>
    have step : (b.widen names).assignPure =
        ((pureLiterals b.clauses).foldl assign (b.widen names)).assignPure := assignPure_eq he
    rw [step, hp, foldl_assign_widen, ih]

theorem simplify_widen (b : Branch) (names : List String) :
    (b.widen names).simplify = b.simplify.widen names := by
  rw [simplify, propagateUnits_widen, assignPure_widen, simplify]

theorem explore_widen (stack : List Branch) (names : List String) :
    explore (stack.map (·.widen names)) = (explore stack).map (·.widen names) := by
  fun_induction explore stack with
  | case1 => rw [List.map_nil, explore, Option.map_none]
  | case2 b stack hc =>
    have satisfied : (b.widen names).clauses = [] := List.isEmpty_iff.1 hc
    rw [List.map_cons, explore_of_clauses_eq_nil satisfied, Option.map_some, widen]
  | case3 b stack _ he ih =>
    have failed : (b.widen names).hasEmptyClause = true := he
    rw [List.map_cons, explore_of_hasEmptyClause failed, ih]
  | case4 b stack hc he hn => exact absurd hn (choice?_ne_none hc he)
  | case5 b stack _ he l hl ih =>
    have unfailed : (b.widen names).hasEmptyClause ≠ true := he
    have choice : (b.widen names).choice? = some l := hl
    rw [List.map_cons, explore_of_choice? unfailed choice, assign_widen, assign_widen,
      simplify_widen, simplify_widen, ← ih, List.map_cons, List.map_cons]

theorem root_widen (cs : List Clause) {xs ys : List String}
    (h : ∀ name, name ∈ ys ↔ name ∈ xs ∨ name ∈ names) :
    root cs ys = (root cs xs).widen names := by
  have all : ∀ name, name ∈ ys ++ cs.flatMap Clause.symbols ↔
      name ∈ xs ++ cs.flatMap Clause.symbols ∨ name ∈ names := by
    intro name
    rw [List.mem_append, List.mem_append, h name, or_right_comm]
  rw [root, root, widen, Model.unassigned_eq_widen all]

end Branch

/-- The outcome with some symbols added to the model, if there is one. -/
def Outcome.widen (o : Outcome) (names : List String) : Outcome where
  satisfiable := o.satisfiable
  residual := o.residual
  model := o.model.map (·.widen names)

/-- A search with more symbols gives the same, with these symbols added to the model it finds. -/
theorem search_widen (cs : List Clause) {xs ys names : List String}
    (h : ∀ name, name ∈ ys ↔ name ∈ xs ∨ name ∈ names) :
    search cs ys = (search cs xs).widen names := by
  have start := (congrArg Branch.simplify (Branch.root_widen cs h)).trans
    (Branch.simplify_widen _ names)
  have model := Branch.explore_widen [(Branch.root cs xs).simplify] names
  rw [List.map_singleton, ← start] at model
  rw [search, search, model, start]
  cases Branch.explore [(Branch.root cs xs).simplify] <;> rfl

end Entailment
