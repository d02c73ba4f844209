import Entailment.Proofs.Search.Decision

/-!
# What simplification leaves

Clauses are settled if there is nothing left for simplification to do: some clause is empty, or
there is no unit and no symbol that occurs with one polarity only. One pass over the units and then
one over the pure literals is enough for that. The complement of a pure literal does not occur, so
assigning the literal takes clauses away and shortens none, and no unit comes up again
(`mem_of_mem_foldl_pure`).

So the clauses that a search starts from are settled, and those of every branch that it ever has on
its stack are (`Visits.settled`).
-/

namespace Entailment

variable {v : Valuation}

/-- No clause has just one literal. -/
def NoUnits (cs : List Clause) : Prop :=
  ∀ c ∈ cs, ∀ l, c.literals ≠ [l]

/-- Every symbol that occurs does so with both polarities. -/
def BothPolarities (cs : List Clause) : Prop :=
  ∀ l ∈ occurringLiterals cs, l.negate ∈ occurringLiterals cs

/-- Some clause is empty, or there is nothing to simplify. -/
def Settled (cs : List Clause) : Prop :=
  (∃ c ∈ cs, c.literals = []) ∨ NoUnits cs ∧ BothPolarities cs

namespace Clause

theorem unit?_eq_none_iff {c : Clause} : c.unit? = none ↔ ∀ l, c.literals ≠ [l] := by
  unfold unit?
  split
  · next l hc => simp [hc]
  · next hc => simpa using hc

/-- A literal that is on no symbol of the clause makes no difference to it. -/
theorem assign_eq_self {c : Clause} {l : Literal} (hl : l ∉ c.literals)
    (hn : l.negate ∉ c.literals) : c.assign l = some c := by
  rw [assign, if_neg hl, Option.some.injEq, Clause.ext_iff, List.filter_eq_self]
  intro k hk
  rw [Bool.not_eq_true', ← Bool.not_eq_true, Literal.complements_iff]
  rintro rfl
  exact hn (by rwa [Literal.negate_negate])

theorem sublist_of_assign {c d : Clause} {l : Literal} (h : c.assign l = some d) :
    d.literals.Sublist c.literals := by
  unfold assign at h
  split at h
  · cases h
  · cases h
    exact List.filter_sublist

end Clause

namespace Branch

variable {b b' : Branch} {l : Literal} {start stack rest : List Branch}

theorem unit?_eq_none_iff : b.unit? = none ↔ NoUnits b.clauses := by
  rw [unit?, List.findSome?_eq_none_iff]
  exact forall₂_congr fun c _ => Clause.unit?_eq_none_iff

/-! ## Units -/

theorem propagateUnits_cases (b : Branch) :
    b.propagateUnits.hasEmptyClause = true ∨ NoUnits b.propagateUnits.clauses := by
  fun_induction propagateUnits b with
  | case1 b he => exact .inl he
  | case2 b _ hu => exact .inr (unit?_eq_none_iff.1 hu)
  | case3 b _ l _ ih => exact ih

/-! ## Pure literals -/

theorem pureLiterals_eq_nil_iff {cs : List Clause} : pureLiterals cs = [] ↔ BothPolarities cs := by
  simp [List.eq_nil_iff_forall_not_mem, mem_pureLiterals, BothPolarities]

/-- Assigning a literal whose complement does not occur leaves clauses as they were. -/
theorem mem_of_mem_assign_pure (hn : l.negate ∉ occurringLiterals b.clauses) {c : Clause}
    (hc : c ∈ (b.assign l).clauses) : c ∈ b.clauses := by
  obtain ⟨d, hd, ha⟩ := List.mem_filterMap.1 hc
  by_cases hl : l ∈ d.literals
  · rw [Clause.assign_eq_none_iff.2 hl] at ha
    cases ha
  · have hdn : l.negate ∉ d.literals := fun h => hn (exists_mem_of_occurring.2 ⟨d, hd, h⟩)
    rw [Clause.assign_eq_self hl hdn] at ha
    cases ha
    exact hd

theorem mem_of_mem_foldl_pure {ls : List Literal}
    (hn : ∀ l ∈ ls, l.negate ∉ occurringLiterals b.clauses) {c : Clause}
    (hc : c ∈ (ls.foldl Branch.assign b).clauses) : c ∈ b.clauses := by
  induction ls generalizing b with
  | nil => exact hc
  | cons l ls ih =>
    obtain ⟨hl, hls⟩ := List.forall_mem_cons.1 hn
    refine mem_of_mem_assign_pure hl (ih (fun k hk h => ?_) hc)
    exact hls k hk (mem_of_occurring_assign h).1

theorem settled_assignPure (h : b.hasEmptyClause = true ∨ NoUnits b.clauses) :
    Settled b.assignPure.clauses := by
  fun_induction assignPure b with
  | case1 b he => exact .inl (hasEmptyClause_iff.1 he)
  | case2 b he hp => exact .inr ⟨h.resolve_left he, pureLiterals_eq_nil_iff.1 hp⟩
  | case3 b he l ls hp ih =>
    refine ih (.inr fun c hc => h.resolve_left he c ?_)
    exact mem_of_mem_foldl_pure (fun k hk => (mem_pureLiterals.1 (hp ▸ hk)).2) hc

theorem settled_simplify (b : Branch) : Settled b.simplify.clauses :=
  settled_assignPure b.propagateUnits_cases

/-! ## The clauses that remain -/

/-- Each clause that remains is made of literals of a clause that was there. -/
theorem Reaches.exists_sublist (h : b.Reaches b') {d : Clause} (hd : d ∈ b'.clauses) :
    ∃ c ∈ b.clauses, d.literals.Sublist c.literals := by
  induction h with
  | refl => exact ⟨d, hd, .refl _⟩
  | assign _ _ ih =>
    obtain ⟨e, he, hde⟩ := ih hd
    obtain ⟨c, hc, ha⟩ := List.mem_filterMap.1 he
    exact ⟨c, hc, hde.trans (Clause.sublist_of_assign ha)⟩

/-- A valuation of the clauses that remain can be made to go on from the assignments, which are on
other symbols. -/
theorem WellFormed.exists_admits (h : b.WellFormed) (hv : Satisfies v b.clauses) :
    ∃ w, b.Admits w := by
  refine ⟨fun name => (b.model.assigned name).getD (v name), ?_, ?_⟩
  · intro name a ha
    simp [ha]
  · intro c hc
    rw [← hv c hc]
    refine Clause.value_congr fun name hn => ?_
    obtain ⟨l, hl, rfl⟩ := List.mem_map.1 hn
    have hu := h.unassigned l (exists_mem_of_occurring.2 ⟨c, hc, hl⟩)
    simp [hu]

/-- The clauses left by simplification have a model exactly when the clauses do. -/
theorem exists_satisfies_simplify_root (cs : List Clause) (symbols : List String) :
    (∃ v, Satisfies v (root cs symbols).simplify.clauses) ↔ ∃ v, Satisfies v cs := by
  have hroot := wellFormed_root cs symbols
  have hr := reaches_simplify hroot
  constructor
  · intro h
    obtain ⟨v, hv⟩ := h
    obtain ⟨w, hw⟩ := (hr.wellFormed hroot).exists_admits hv
    exact ⟨w, admits_root.1 (hr.admits hw)⟩
  · intro h
    obtain ⟨v, hv⟩ := h
    obtain ⟨w, hw⟩ := exists_admits_simplify hroot (admits_root.2 hv)
    exact ⟨w, hw.2⟩

/-! ## The stacks of a search -/

/-- What a turn of the search makes of the stack, unless the turn ends the search. -/
def nextStack? : List Branch → Option (List Branch)
  | [] => none
  | b :: stack =>
    if b.clauses.isEmpty then none
    else if b.hasEmptyClause then some stack
    else match b.choice? with
      | none => some stack
      | some l => some ((b.assign l).simplify :: (b.assign l.negate).simplify :: stack)

/-- The second stack is one that a search from the first one comes to. -/
inductive Visits (start : List Branch) : List Branch → Prop
  | refl : Visits start start
  | turn {stack rest : List Branch} (before : Visits start stack)
    (next : nextStack? stack = some rest) : Visits start rest

/-- A search takes turns until one ends it. Then it has found the model of the top branch, or there
is no branch left. -/
theorem explore_eq_nextStack? (stack : List Branch) :
    explore stack =
      match nextStack? stack with
      | some rest => explore rest
      | none => stack.head?.map Branch.model := by
  fun_cases explore stack with
  | case1 => rfl
  | case2 b stack hc => simp [nextStack?, hc]
  | case3 b stack hc he => simp only [nextStack?, hc, he, Bool.false_eq_true, if_true, if_false]
  | case4 b stack hc he hn => simp only [nextStack?, hc, he, hn, Bool.false_eq_true, if_false]
  | case5 b stack hc he l hl => simp only [nextStack?, hc, he, hl, Bool.false_eq_true, if_false]

theorem Visits.explore_eq (h : Visits start stack) : explore start = explore stack := by
  induction h with
  | refl => rfl
  | turn _ next ih => rw [ih, explore_eq_nextStack?, next]

/-- A turn puts only simplified branches on the stack. -/
theorem settled_of_nextStack? (h : nextStack? stack = some rest)
    (hs : ∀ b ∈ stack, Settled b.clauses) : ∀ b ∈ rest, Settled b.clauses := by
  unfold nextStack? at h
  split at h
  · cases h
  · next b stack =>
    obtain ⟨-, hrest⟩ := List.forall_mem_cons.1 hs
    split at h
    · cases h
    split at h
    · cases h
      exact hrest
    split at h
    · cases h
      exact hrest
    · cases h
      exact List.forall_mem_cons.2
        ⟨settled_simplify _, List.forall_mem_cons.2 ⟨settled_simplify _, hrest⟩⟩

theorem Visits.settled (h : Visits start stack) (hs : ∀ b ∈ start, Settled b.clauses) :
    ∀ b ∈ stack, Settled b.clauses := by
  induction h with
  | refl => exact hs
  | turn _ next ih => exact settled_of_nextStack? next ih

end Branch

/-! ## The search -/

open Branch

theorem residual_search (cs : List Clause) (symbols : List String) :
    (search cs symbols).residual = (root cs symbols).simplify.clauses := by
  cases h : explore [(root cs symbols).simplify] <;> simp only [search, h]

/-- The residual of a search is settled. It has a model exactly when the clauses have one, each of
its clauses is made of literals of a clause given, and no symbol that simplification assigned is
left in it. The branches of every stack that the search comes to are settled too. -/
theorem settled_residual_search (cs : List Clause) (symbols : List String) :
    Settled (search cs symbols).residual ∧
    ((∃ v, Satisfies v (search cs symbols).residual) ↔ ∃ v, Satisfies v cs) ∧
    (∀ d ∈ (search cs symbols).residual, ∃ c ∈ cs, d.literals ⊆ c.literals) ∧
    (∀ name, ((root cs symbols).simplify.model.assigned name).isSome = true →
      ∀ d ∈ (search cs symbols).residual, name ∉ d.symbols) ∧
    ∀ stack, Visits [(root cs symbols).simplify] stack →
      explore stack = (search cs symbols).model ∧ ∀ b ∈ stack, Settled b.clauses := by
  have hroot := wellFormed_root cs symbols
  have hr := reaches_simplify hroot
  rw [residual_search]
  refine ⟨settled_simplify _, exists_satisfies_simplify_root cs symbols, ?_, ?_, ?_⟩
  · intro d hd
    obtain ⟨c, hc, hdc⟩ := hr.exists_sublist hd
    exact ⟨c, hc, hdc.subset⟩
  · intro name ha d hd hn
    obtain ⟨l, hl, rfl⟩ := List.mem_map.1 hn
    have hu := (hr.wellFormed hroot).unassigned l (exists_mem_of_occurring.2 ⟨d, hd, hl⟩)
    rw [hu] at ha
    cases ha
  · intro stack hs
    refine ⟨?_, hs.settled fun b hb => ?_⟩
    · rw [model_search, hs.explore_eq]
    · rw [List.mem_singleton.1 hb]
      exact settled_simplify _

end Entailment
