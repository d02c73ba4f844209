import Entailment.Proofs.Search.Simplification

/-!
# The order of clauses and of literals

To a search two clauses are the same if they have the same literals, and two lists of clauses if
each clause of either is the same as one of the other. On such lists it finds the same model
(`search_congr`), although it takes the units and the pure literals in another order.

Pure literals are assigned as a batch, and on distinct symbols the order of assignments does not
matter (`foldl_assign_perm`). Units are assigned one at a time, and an assignment may make new ones.
But a unit stays one until its symbol is assigned, so propagation may as well begin with any unit
there is (`alike_propagateUnits_assign`), unless it fails: then the clauses that are left may
differ, but there is an empty one among them in either order. So the branches of two searches are
the same, or both have failed (`Branch.Alike`).
-/

namespace Entailment

/-- The same literals, in whatever order. -/
def Clause.Same (c d : Clause) : Prop :=
  ∀ l, l ∈ c.literals ↔ l ∈ d.literals

/-- Each clause of the first list is the same as one of the second. -/
def CoveredBy (cs ds : List Clause) : Prop :=
  ∀ c ∈ cs, ∃ d ∈ ds, c.Same d

/-- The same clauses, whatever their order, their repetition and the order of their literals. -/
structure SameClauses (cs ds : List Clause) : Prop where
  left : CoveredBy cs ds
  right : CoveredBy ds cs

theorem Clause.same_iff_perm {c d : Clause} : c.Same d ↔ c.literals.Perm d.literals :=
  (List.perm_ext_iff_of_nodup c.nodup d.nodup).symm

instance (c d : Clause) : Decidable (c.Same d) :=
  decidable_of_iff _ Clause.same_iff_perm.symm

instance (cs ds : List Clause) : Decidable (CoveredBy cs ds) :=
  inferInstanceAs (Decidable (∀ c ∈ cs, ∃ d ∈ ds, c.Same d))

instance (cs ds : List Clause) : Decidable (SameClauses cs ds) :=
  decidable_of_iff (CoveredBy cs ds ∧ CoveredBy ds cs)
    ⟨fun h => ⟨h.1, h.2⟩, fun h => ⟨h.left, h.right⟩⟩

section
variable {c d c' : Clause} {cs ds es : List Clause} {l : Literal}

theorem Clause.Same.assign (h : c.Same d) (ha : c.assign l = some c') :
    ∃ d', d.assign l = some d' ∧ c'.Same d' := by
  cases hd : d.assign l with
  | none =>
    rw [Clause.assign_eq_none_iff, ← h l, ← Clause.assign_eq_none_iff, ha] at hd
    cases hd
  | some d' =>
    refine ⟨d', rfl, fun k => ?_⟩
    rw [Clause.mem_of_assign ha, Clause.mem_of_assign hd, h k]

theorem CoveredBy.trans (h : CoveredBy cs ds) (h' : CoveredBy ds es) : CoveredBy cs es := by
  intro c hc
  obtain ⟨d, hd, hcd⟩ := h c hc
  obtain ⟨e, he, hde⟩ := h' d hd
  exact ⟨e, he, fun l => (hcd l).trans (hde l)⟩

theorem CoveredBy.exists_perm (h : CoveredBy cs ds) (hc : c ∈ cs) :
    ∃ d ∈ ds, d.literals.Perm c.literals := by
  obtain ⟨d, hd, hcd⟩ := h c hc
  exact ⟨d, hd, (Clause.same_iff_perm.1 hcd).symm⟩

theorem CoveredBy.mem_occurring (h : CoveredBy cs ds) (hl : l ∈ occurringLiterals cs) :
    l ∈ occurringLiterals ds := by
  obtain ⟨c, hc, hl⟩ := Branch.exists_mem_of_occurring.1 hl
  obtain ⟨d, hd, hcd⟩ := h c hc
  exact Branch.exists_mem_of_occurring.2 ⟨d, hd, (hcd l).1 hl⟩

theorem CoveredBy.mem_symbols (h : CoveredBy cs ds) {name : String}
    (hn : name ∈ cs.flatMap Clause.symbols) : name ∈ ds.flatMap Clause.symbols := by
  obtain ⟨c, hc, hn⟩ := List.mem_flatMap.1 hn
  obtain ⟨l, hl, rfl⟩ := List.mem_map.1 hn
  obtain ⟨d, hd, hcd⟩ := h c hc
  exact List.mem_flatMap.2 ⟨d, hd, List.mem_map_of_mem ((hcd l).1 hl)⟩

theorem CoveredBy.eq_nil (h : CoveredBy cs []) : cs = [] := by
  rw [List.eq_nil_iff_forall_not_mem]
  intro c hc
  obtain ⟨d, hd, -⟩ := h c hc
  cases hd

theorem CoveredBy.assign (h : CoveredBy cs ds) (l : Literal) :
    CoveredBy (cs.filterMap (·.assign l)) (ds.filterMap (·.assign l)) := by
  intro c' hc'
  obtain ⟨c, hc, ha⟩ := List.mem_filterMap.1 hc'
  obtain ⟨d, hd, hcd⟩ := h c hc
  obtain ⟨d', hb, hcd'⟩ := hcd.assign ha
  exact ⟨d', List.mem_filterMap.2 ⟨d, hd, hb⟩, hcd'⟩

namespace SameClauses

theorem refl (cs : List Clause) : SameClauses cs cs where
  left := fun c hc => ⟨c, hc, fun _ => Iff.rfl⟩
  right := fun c hc => ⟨c, hc, fun _ => Iff.rfl⟩

theorem symm (h : SameClauses cs ds) : SameClauses ds cs :=
  ⟨h.right, h.left⟩

theorem trans (h : SameClauses cs ds) (h' : SameClauses ds es) : SameClauses cs es :=
  ⟨h.left.trans h'.left, h'.right.trans h.right⟩

theorem mem_occurring (h : SameClauses cs ds) :
    l ∈ occurringLiterals cs ↔ l ∈ occurringLiterals ds :=
  ⟨h.left.mem_occurring, h.right.mem_occurring⟩

theorem mem_symbols (h : SameClauses cs ds) {name : String} :
    name ∈ cs.flatMap Clause.symbols ↔ name ∈ ds.flatMap Clause.symbols :=
  ⟨h.left.mem_symbols, h.right.mem_symbols⟩

theorem assign (h : SameClauses cs ds) (l : Literal) :
    SameClauses (cs.filterMap (·.assign l)) (ds.filterMap (·.assign l)) :=
  ⟨h.left.assign l, h.right.assign l⟩

theorem perm_pureLiterals (h : SameClauses cs ds) :
    (pureLiterals cs).Perm (pureLiterals ds) := by
  refine (List.perm_ext_iff_of_nodup (nodup_eraseDups _) (nodup_eraseDups _)).2 fun l => ?_
  rw [← pureLiterals, ← pureLiterals, Branch.mem_pureLiterals, Branch.mem_pureLiterals,
    h.mem_occurring, h.mem_occurring]

end SameClauses

end

namespace Branch

variable {b b' b'' : Branch} {l k : Literal} {stack stack' : List Branch}

/-! ## Two assignments -/

theorem bind_assign_of_mem (hn : l.name ≠ k.name) {c : Clause} (hl : l ∈ c.literals) :
    (c.assign k).bind (·.assign l) = none := by
  cases hk : c.assign k with
  | none => rfl
  | some d =>
    have hne : l ≠ k.negate := by
      rintro rfl
      exact hn (Literal.name_negate k)
    exact Clause.assign_eq_none_iff.2 ((Clause.mem_of_assign hk).2 ⟨hl, hne⟩)

theorem bind_assign_comm (hn : l.name ≠ k.name) (c : Clause) :
    (c.assign l).bind (·.assign k) = (c.assign k).bind (·.assign l) := by
  by_cases hl : l ∈ c.literals
  · rw [bind_assign_of_mem hn hl, Clause.assign_eq_none_iff.2 hl]
    rfl
  by_cases hk : k ∈ c.literals
  · rw [bind_assign_of_mem hn.symm hk, Clause.assign_eq_none_iff.2 hk]
    rfl
  · -- Both complements are taken away, in either order.
    simp [Clause.assign, hl, hk, List.filter_filter, Bool.and_comm]

/-- Assignments to distinct symbols may change places. -/
theorem assign_comm (hn : l.name ≠ k.name) (b : Branch) :
    (b.assign l).assign k = (b.assign k).assign l := by
  have hc : ((b.assign l).assign k).clauses = ((b.assign k).assign l).clauses := by
    simp only [Branch.assign, List.filterMap_filterMap, bind_assign_comm hn]
  have hm : ((b.assign l).assign k).model = ((b.assign k).assign l).model := by
    apply SortedMap.ext
    intro name
    simp only [Branch.assign, Model.set, SortedMap.get?_insert]
    by_cases hl : name = l.name
    · simp [hl, hn]
    · simp [hl]
  exact (Branch.mk.injEq _ _ _ _).mpr ⟨hc, hm⟩

theorem foldl_assign_perm {ls ks : List Literal} (hp : ls.Perm ks)
    (hn : ls.Pairwise (·.name ≠ ·.name)) (b : Branch) :
    ls.foldl Branch.assign b = ks.foldl Branch.assign b := by
  induction hp generalizing b with
  | nil => rfl
  | cons l _ ih => exact ih (List.pairwise_cons.1 hn).2 (b.assign l)
  | swap l k ls =>
    have hkl : k.name ≠ l.name := (List.pairwise_cons.1 hn).1 l List.mem_cons_self
    simp only [List.foldl_cons, assign_comm hkl]
  | trans hp _ ih ih' =>
    exact (ih hn b).trans (ih' ((hp.pairwise_iff Ne.symm).1 hn) b)

/-! ## Branches that are the same -/

/-- The same assignments, and the same clauses up to their order. -/
structure Same (b b' : Branch) : Prop where
  clauses : SameClauses b.clauses b'.clauses
  model : b.model = b'.model

/-- The branches are the same, or both have failed. -/
def Alike (b b' : Branch) : Prop :=
  b.hasEmptyClause = true ∧ b'.hasEmptyClause = true ∨ b.Same b'

theorem Same.refl (b : Branch) : b.Same b :=
  ⟨.refl _, rfl⟩

theorem Same.symm (h : b.Same b') : b'.Same b :=
  ⟨h.clauses.symm, h.model.symm⟩

theorem Same.trans (h : b.Same b') (h' : b'.Same b'') : b.Same b'' :=
  ⟨h.clauses.trans h'.clauses, h.model.trans h'.model⟩

theorem Same.assign (h : b.Same b') (l : Literal) : (b.assign l).Same (b'.assign l) where
  clauses := h.clauses.assign l
  model := by
    show b.model.set l.name l.polarity = b'.model.set l.name l.polarity
    rw [h.model]

theorem Same.foldl_assign (h : b.Same b') (ls : List Literal) :
    (ls.foldl Branch.assign b).Same (ls.foldl Branch.assign b') := by
  induction ls generalizing b b' with
  | nil => exact h
  | cons l ls ih => exact ih (h.assign l)

theorem hasEmptyClause_of_coveredBy (h : CoveredBy b.clauses b'.clauses)
    (he : b.hasEmptyClause = true) : b'.hasEmptyClause = true := by
  rw [hasEmptyClause_iff] at he ⊢
  obtain ⟨c, hc, hn⟩ := he
  obtain ⟨d, hd, hp⟩ := h.exists_perm hc
  rw [hn] at hp
  exact ⟨d, hd, hp.eq_nil⟩

theorem Same.hasEmptyClause_eq (h : b.Same b') : b.hasEmptyClause = b'.hasEmptyClause := by
  rw [Bool.eq_iff_iff]
  exact ⟨hasEmptyClause_of_coveredBy h.clauses.left, hasEmptyClause_of_coveredBy h.clauses.right⟩

theorem Same.choice?_eq (h : b.Same b') : b.choice? = b'.choice? := by
  have hs : SortedSet.ofList (occurringLiterals b.clauses) =
      SortedSet.ofList (occurringLiterals b'.clauses) := by
    apply SortedSet.ext
    intro l
    rw [SortedSet.mem_ofList, SortedSet.mem_ofList, h.clauses.mem_occurring]
  rw [choice?, choice?, hs]

namespace Alike

theorem symm (h : b.Alike b') : b'.Alike b :=
  h.imp And.symm Same.symm

theorem hasEmptyClause_eq (h : b.Alike b') : b.hasEmptyClause = b'.hasEmptyClause := by
  rcases h with ⟨hb, hb'⟩ | h
  · rw [hb, hb']
  · exact h.hasEmptyClause_eq

theorem trans (h : b.Alike b') (h' : b'.Alike b'') : b.Alike b'' := by
  have he := h.hasEmptyClause_eq
  have he' := h'.hasEmptyClause_eq
  rcases h with ⟨hb, hb'⟩ | h
  · exact .inl ⟨hb, by rw [← he', hb']⟩
  rcases h' with ⟨hb', hb''⟩ | h'
  · exact .inl ⟨by rw [he, hb'], hb''⟩
  · exact .inr (h.trans h')

end Alike

/-! ## Unit propagation -/

/-- Some clause has this literal alone. -/
def HasUnit (b : Branch) (l : Literal) : Prop :=
  ∃ c ∈ b.clauses, c.literals = [l]

theorem hasUnit_of_unit? (h : b.unit? = some l) : b.HasUnit l := by
  obtain ⟨c, hc, hu⟩ := List.exists_of_findSome?_eq_some h
  exact ⟨c, hc, Clause.literals_of_unit? hu⟩

theorem HasUnit.exists_unit? (h : b.HasUnit l) : ∃ k, b.unit? = some k := by
  obtain ⟨c, hc, hl⟩ := h
  cases hu : b.unit? with
  | none => exact absurd hl (unit?_eq_none_iff.1 hu c hc l)
  | some k => exact ⟨k, rfl⟩

theorem Same.hasUnit (h : b.Same b') (hu : b.HasUnit l) : b'.HasUnit l := by
  obtain ⟨c, hc, hl⟩ := hu
  obtain ⟨d, hd, hp⟩ := h.clauses.left.exists_perm hc
  rw [hl] at hp
  exact ⟨d, hd, List.perm_singleton.1 hp⟩

/-- A unit stays one until its symbol is assigned. -/
theorem HasUnit.assign (h : b.HasUnit k) (hn : l.name ≠ k.name) : (b.assign l).HasUnit k := by
  obtain ⟨c, hc, hk⟩ := h
  have hl : l ∉ c.literals := by
    rw [hk, List.mem_singleton]
    rintro rfl
    exact hn rfl
  have hln : l.negate ∉ c.literals := by
    rw [hk, List.mem_singleton]
    rintro rfl
    exact hn rfl
  exact ⟨c, List.mem_filterMap.2 ⟨c, hc, Clause.assign_eq_self hl hln⟩, hk⟩

/-- The branch on which a unit is false has failed. -/
theorem HasUnit.hasEmptyClause_assign_negate (h : b.HasUnit l) :
    (b.assign l.negate).hasEmptyClause = true := by
  obtain ⟨c, hc, hl⟩ := h
  rw [hasEmptyClause_iff]
  cases ha : c.assign l.negate with
  | none =>
    have hm := Clause.assign_eq_none_iff.1 ha
    rw [hl, List.mem_singleton] at hm
    exact absurd (congrArg Literal.negated hm) (by simp [Literal.negate])
  | some d =>
    refine ⟨d, List.mem_filterMap.2 ⟨c, hc, ha⟩, ?_⟩
    rw [List.eq_nil_iff_forall_not_mem]
    intro k hk
    rw [Clause.mem_of_assign ha, hl, List.mem_singleton, Literal.negate_negate] at hk
    exact hk.2 hk.1

/-- A branch that has failed stays so. -/
theorem hasEmptyClause_assign (h : b.hasEmptyClause = true) (l : Literal) :
    (b.assign l).hasEmptyClause = true := by
  rw [hasEmptyClause_iff] at h ⊢
  obtain ⟨c, hc, hn⟩ := h
  exact ⟨c, List.mem_filterMap.2 ⟨c, hc, Clause.assign_eq_self (by simp [hn]) (by simp [hn])⟩, hn⟩

theorem propagateUnits_of_hasEmptyClause (h : b.hasEmptyClause = true) :
    b.propagateUnits = b := by
  rw [propagateUnits, if_pos h]

theorem propagateUnits_of_noUnits (h : NoUnits b.clauses) : b.propagateUnits = b := by
  unfold propagateUnits
  split
  · rfl
  split
  · rfl
  · next hu => simp [unit?_eq_none_iff.2 h] at hu

theorem propagateUnits_of_unit? (he : b.hasEmptyClause ≠ true) (hu : b.unit? = some l) :
    b.propagateUnits = (b.assign l).propagateUnits := by
  rw [propagateUnits, if_neg he]
  split
  · next hn => simp [hu] at hn
  · next k hk =>
    rw [hu] at hk
    cases hk
    rfl

/-- Both branches fail at once. -/
theorem alike_propagateUnits_of_hasEmptyClause (h : b.hasEmptyClause = true)
    (h' : b'.hasEmptyClause = true) : b.propagateUnits.Alike b'.propagateUnits := by
  rw [propagateUnits_of_hasEmptyClause h, propagateUnits_of_hasEmptyClause h']
  exact .inl ⟨h, h'⟩

/-- Propagation may begin with any unit there is. -/
theorem alike_propagateUnits_assign (hk : b.HasUnit k) :
    b.propagateUnits.Alike (b.assign k).propagateUnits := by
  induction hlen : b.clauses.length using Nat.strongRecOn generalizing b k with
  | ind n ih =>
    by_cases he : b.hasEmptyClause = true
    · exact alike_propagateUnits_of_hasEmptyClause he (hasEmptyClause_assign he k)
    obtain ⟨l, hl⟩ := hk.exists_unit?
    rw [propagateUnits_of_unit? he hl]
    have hl := hasUnit_of_unit? hl
    by_cases hn : l.name = k.name
    · rcases Literal.eq_or_eq_negate_of_name_eq hn with rfl | rfl
      · exact .inr (.refl _)
      · -- The units are opposite, so that one clause is empty after either assignment.
        have hl := hl.hasEmptyClause_assign_negate
        rw [Literal.negate_negate] at hl
        exact alike_propagateUnits_of_hasEmptyClause hk.hasEmptyClause_assign_negate hl
    · -- After either assignment the other unit is still there, and then both are assigned.
      have shorter {j : Literal} (hj : b.HasUnit j) : (b.assign j).clauses.length < n := by
        obtain ⟨c, hc, hs⟩ := hj
        exact hlen ▸ length_assign_lt hc (by simp [hs])
      have hlk := ih _ (shorter hl) (hk.assign hn) rfl
      have hkl := ih _ (shorter hk) (hl.assign (Ne.symm hn)) rfl
      rw [assign_comm hn] at hlk
      exact hlk.trans hkl.symm

/-- Propagation does not depend on the order of the clauses. -/
theorem alike_propagateUnits (h : b.Same b') : b.propagateUnits.Alike b'.propagateUnits := by
  fun_induction propagateUnits b generalizing b' with
  | case1 b he =>
    have he' := h.hasEmptyClause_eq ▸ he
    rw [propagateUnits_of_hasEmptyClause he']
    exact .inl ⟨he, he'⟩
  | case2 b _ hu =>
    have hn : NoUnits b'.clauses := by
      intro d hd l hl
      obtain ⟨c, hc, hlc⟩ := h.symm.hasUnit ⟨d, hd, hl⟩
      exact unit?_eq_none_iff.1 hu c hc l hlc
    rw [propagateUnits_of_noUnits hn]
    exact .inr h
  | case3 b _ l hu ih =>
    have hu' := h.hasUnit (hasUnit_of_unit? hu)
    exact (ih (h.assign l)).trans (alike_propagateUnits_assign hu').symm

/-! ## Pure literals -/

theorem assignPure_of_hasEmptyClause (h : b.hasEmptyClause = true) : b.assignPure = b := by
  rw [assignPure, if_pos h]

/-- Unless the branch has failed, the batch of its pure literals is assigned first. -/
theorem assignPure_eq (he : b.hasEmptyClause ≠ true) :
    b.assignPure = ((pureLiterals b.clauses).foldl Branch.assign b).assignPure := by
  cases hp : pureLiterals b.clauses with
  | nil => rfl
  | cons l ls =>
    conv => lhs; unfold assignPure
    rw [if_neg he]
    split
    · next hn => simp [hp] at hn
    · next k ks hk =>
      rw [hp] at hk
      cases hk
      rfl

theorem Same.foldl_pure (h : b.Same b') :
    ((pureLiterals b.clauses).foldl Branch.assign b).Same
      ((pureLiterals b'.clauses).foldl Branch.assign b') := by
  rw [← foldl_assign_perm h.clauses.perm_pureLiterals (pairwise_pureLiterals _)]
  exact h.foldl_assign _

theorem assignPure_of_pureLiterals_eq_nil (h : pureLiterals b.clauses = []) :
    b.assignPure = b := by
  unfold assignPure
  split
  · rfl
  split
  · rfl
  · next hp => simp [h] at hp

theorem alike_assignPure (h : b.Same b') : b.assignPure.Alike b'.assignPure := by
  fun_induction assignPure b generalizing b' with
  | case1 b he =>
    have he' := h.hasEmptyClause_eq ▸ he
    rw [assignPure_of_hasEmptyClause he']
    exact .inl ⟨he, he'⟩
  | case2 b _ hp =>
    have hp' := h.clauses.perm_pureLiterals
    rw [hp] at hp'
    rw [assignPure_of_pureLiterals_eq_nil hp'.symm.eq_nil]
    exact .inr h
  | case3 b he l ls hp ih =>
    have he' : b'.hasEmptyClause ≠ true := h.hasEmptyClause_eq ▸ he
    have hs := h.foldl_pure
    rw [hp] at hs
    rw [assignPure_eq he']
    exact ih hs

theorem alike_simplify (h : b.Same b') : b.simplify.Alike b'.simplify := by
  rcases alike_propagateUnits h with ⟨he, he'⟩ | hs
  · rw [simplify, simplify, assignPure_of_hasEmptyClause he, assignPure_of_hasEmptyClause he']
    exact .inl ⟨he, he'⟩
  · exact alike_assignPure hs

/-! ## The stack -/

/-- Stacks of the same height, with branches that are alike at every place. -/
inductive AlikeStacks : List Branch → List Branch → Prop
  | nil : AlikeStacks [] []
  | cons {b b' : Branch} {stack stack' : List Branch} (top : b.Alike b')
    (below : AlikeStacks stack stack') : AlikeStacks (b :: stack) (b' :: stack')

theorem explore_of_clauses_eq_nil (h : b.clauses = []) : explore (b :: stack) = some b.model := by
  rw [explore, h]
  rfl

theorem explore_of_hasEmptyClause (h : b.hasEmptyClause = true) :
    explore (b :: stack) = explore stack := by
  have hn := clauses_ne_nil_of_hasEmptyClause h
  rw [explore, if_neg (mt List.isEmpty_iff.1 hn), if_pos h]

theorem explore_of_choice? (he : b.hasEmptyClause ≠ true) (hl : b.choice? = some l) :
    explore (b :: stack) =
      explore ((b.assign l).simplify :: (b.assign l.negate).simplify :: stack) := by
  have hn := clauses_ne_nil_of_choice? hl
  rw [explore, if_neg (mt List.isEmpty_iff.1 hn), if_neg he]
  split
  · next hc => simp [hl] at hc
  · next k hk =>
    rw [hl] at hk
    cases hk
    rfl

/-- Searches of stacks that are alike find the same. -/
theorem explore_congr (h : AlikeStacks stack stack') : explore stack = explore stack' := by
  fun_induction explore stack generalizing stack' with
  | case1 =>
    cases h
    rw [explore]
  | case2 b stack hc =>
    cases h with
    | cons top below =>
      have hn := List.isEmpty_iff.1 hc
      rcases top with ⟨he, -⟩ | hs
      · exact absurd hn (clauses_ne_nil_of_hasEmptyClause he)
      · have hs' := hs.clauses.right
        rw [hn] at hs'
        rw [explore_of_clauses_eq_nil hs'.eq_nil, hs.model]
  | case3 b stack _ he ih =>
    cases h with
    | cons top below =>
      rw [explore_of_hasEmptyClause (top.hasEmptyClause_eq ▸ he)]
      exact ih below
  | case4 b stack hc he hn => exact absurd hn (choice?_ne_none hc he)
  | case5 b stack _ he l hl ih =>
    cases h with
    | cons top below =>
      rcases top with ⟨hb, -⟩ | hs
      · exact absurd hb he
      · have he' := hs.hasEmptyClause_eq ▸ he
        have hl' := hs.choice?_eq ▸ hl
        rw [explore_of_choice? he' hl']
        exact ih (.cons (alike_simplify (hs.assign l))
          (.cons (alike_simplify (hs.assign l.negate)) below))

theorem same_root {cs ds : List Clause} {xs ys : List String} (h : SameClauses cs ds)
    (hs : ∀ name, name ∈ xs ↔ name ∈ ys) : (root cs xs).Same (root ds ys) where
  clauses := h
  model := by
    apply SortedMap.ext
    intro name
    have hm : name ∈ xs ++ cs.flatMap Clause.symbols ↔ name ∈ ys ++ ds.flatMap Clause.symbols := by
      rw [List.mem_append, List.mem_append, hs name, h.mem_symbols]
    simp only [root, Model.unassigned, SortedMap.get?_const, hm]

end Branch

/-! ## The search -/

open Branch

/-- A search does not depend on the order of the clauses, on their repetition or on the order of
their literals. It gives the same answer and the same model, and it leaves the same residual, unless
there is an empty clause in both. -/
theorem search_congr {cs ds : List Clause} {xs ys : List String} (h : SameClauses cs ds)
    (hs : ∀ name, name ∈ xs ↔ name ∈ ys) :
    (search cs xs).satisfiable = (search ds ys).satisfiable ∧
    (search cs xs).model = (search ds ys).model ∧
    ((∃ c ∈ (search cs xs).residual, c.literals = []) ∧
        (∃ d ∈ (search ds ys).residual, d.literals = []) ∨
      SameClauses (search cs xs).residual (search ds ys).residual) := by
  have ha := alike_simplify (same_root h hs)
  have hm : (search cs xs).model = (search ds ys).model := by
    rw [model_search, model_search]
    exact explore_congr (.cons ha .nil)
  refine ⟨?_, hm, ?_⟩
  · rw [satisfiable_search, satisfiable_search, hm]
  · rw [residual_search, residual_search, ← hasEmptyClause_iff, ← hasEmptyClause_iff]
    exact ha.imp_right Same.clauses

theorem search_congr_reordered :
    let a := Literal.positive ⟨"a", by decide⟩
    let b := Literal.positive ⟨"b", by decide⟩
    let c := Literal.positive ⟨"c", by decide⟩
    let cs : List Clause := [.ofList [a, b], .ofList [a.negate, c], .ofList [c.negate, b.negate]]
    let ds : List Clause := [.ofList [b.negate, c.negate], .ofList [b, a], .ofList [c, a.negate],
      .ofList [a, b]]
    SameClauses cs ds ∧ (∀ name, name ∈ ["d"] ↔ name ∈ ["d", "d"]) ∧
      (search cs ["d"]).satisfiable = (search ds ["d", "d"]).satisfiable ∧
      (search cs ["d"]).model = (search ds ["d", "d"]).model ∧
      ((∃ c ∈ (search cs ["d"]).residual, c.literals = []) ∧
          (∃ d ∈ (search ds ["d", "d"]).residual, d.literals = []) ∨
        SameClauses (search cs ["d"]).residual (search ds ["d", "d"]).residual) := by
  intro a b c cs ds
  have h : SameClauses cs ds := by decide
  have hs : ∀ name, name ∈ ["d"] ↔ name ∈ ["d", "d"] := by simp
  exact ⟨h, hs, search_congr h hs⟩

-- Where propagation fails, the residuals may differ: here one of the searches has not come to `b`.
example :
    let a := Literal.positive ⟨"a", by decide⟩
    let b := Literal.positive ⟨"b", by decide⟩
    let cs : List Clause := [.ofList [a], .ofList [a.negate], .ofList [b]]
    let ds : List Clause := [.ofList [b], .ofList [a], .ofList [a.negate]]
    SameClauses cs ds ∧ ¬ SameClauses (search cs []).residual (search ds []).residual := by
  decide +kernel

end Entailment
