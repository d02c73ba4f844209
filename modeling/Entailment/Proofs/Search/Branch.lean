import Entailment.Dpll.Branch
import Entailment.Proofs.Valuation

/-!
# What a branch of a search admits

A branch admits the valuations that go on from its assignments and satisfy its clauses. All that a
search does to a branch is to assign symbols of its model that have no value yet (`Reaches`), so
that no symbol is ever assigned twice and whatever a later branch admits, the earlier one did.

Unit propagation loses no valuation (`admits_propagateUnits`). Assigning a batch of pure literals
may lose some, but not all of them (`exists_admits_assignPure`).
-/

namespace Entailment

variable {v : Valuation}

/-! ## One assignment -/

namespace Clause

theorem value_of_assign_eq_some {c d : Clause} {l : Literal} (h : c.assign l = some d)
    (hl : l.value v = true) : d.value v = c.value v := by
  rw [Bool.eq_iff_iff, value_eq_true_iff, value_eq_true_iff]
  constructor
  · intro hd
    obtain ⟨k, hk, hv⟩ := hd
    exact ⟨k, ((mem_of_assign h).1 hk).1, hv⟩
  · intro hc
    obtain ⟨k, hk, hv⟩ := hc
    -- A literal that is true is not the one that the assignment takes away.
    have hne : k ≠ l.negate := by
      intro he
      rw [he, Literal.value_negate, hl] at hv
      cases hv
    exact ⟨k, (mem_of_assign h).2 ⟨hk, hne⟩, hv⟩

theorem literals_of_unit? {c : Clause} {l : Literal} (h : c.unit? = some l) :
    c.literals = [l] := by
  unfold unit? at h
  split at h
  · next hc =>
    cases h
    exact hc
  · cases h

end Clause

namespace Model

variable {m : Model}

theorem agrees_set {name : String} {b : Bool} (h : m.assigned name = none) :
    (m.set name b).Agrees v ↔ m.Agrees v ∧ v name = b := by
  simp only [Agrees, assigned_set]
  constructor
  · intro hs
    refine ⟨fun x a ha => hs x a ?_, hs name b (by simp)⟩
    have hx : x ≠ name := by
      intro he
      rw [he, h] at ha
      cases ha
    simpa [hx] using ha
  · intro hm
    obtain ⟨hm, hv⟩ := hm
    intro x a ha
    by_cases hx : x = name
    · subst hx
      simpa [hv] using ha
    · exact hm x a (by simpa [hx] using ha)

theorem keys_set {name : String} (h : name ∈ m) (b : Bool) : (m.set name b).keys = m.keys := by
  apply SortedSet.ext
  intro x
  rw [← SortedMap.mem_iff_mem_keys, ← SortedMap.mem_iff_mem_keys, set, SortedMap.mem_insert]
  constructor
  · intro hx
    rcases hx with rfl | hx
    · exact h
    · exact hx
  · exact .inr

theorem agrees_unassigned (symbols : List String) : (unassigned symbols).Agrees v := by
  intro name b h
  simp at h

end Model

namespace Branch

variable {b b' : Branch} {l : Literal}

theorem hasEmptyClause_iff : b.hasEmptyClause = true ↔ ∃ c ∈ b.clauses, c.literals = [] := by
  simp [hasEmptyClause, Clause.isEmpty]

/-- The valuation goes on from the assignments of the branch and satisfies its clauses. -/
def Admits (b : Branch) (v : Valuation) : Prop :=
  b.model.Agrees v ∧ Satisfies v b.clauses

/-- The symbols of the clauses are symbols of the model, and none of them has a value. -/
structure WellFormed (b : Branch) : Prop where
  known : ∀ l ∈ occurringLiterals b.clauses, l.name ∈ b.model
  unassigned : ∀ l ∈ occurringLiterals b.clauses, b.model.assigned l.name = none

/-- The symbol of the literal is one of the model and may still be assigned. -/
structure Open (b : Branch) (l : Literal) : Prop where
  known : l.name ∈ b.model
  unassigned : b.model.assigned l.name = none

theorem WellFormed.isOpen (h : b.WellFormed) (hl : l ∈ occurringLiterals b.clauses) : b.Open l :=
  ⟨h.known l hl, h.unassigned l hl⟩

theorem Open.of_name_eq {k : Literal} (h : b.Open l) (hk : k.name = l.name) : b.Open k :=
  ⟨hk ▸ h.known, hk ▸ h.unassigned⟩

theorem satisfies_assign (hl : l.value v = true) :
    Satisfies v (b.assign l).clauses ↔ Satisfies v b.clauses := by
  constructor
  · intro h c hc
    cases ha : c.assign l with
    | none => exact Clause.value_eq_true_iff.2 ⟨l, Clause.assign_eq_none_iff.1 ha, hl⟩
    | some d =>
      rw [← Clause.value_of_assign_eq_some ha hl]
      exact h d (List.mem_filterMap.2 ⟨c, hc, ha⟩)
  · intro h d hd
    obtain ⟨c, hc, ha⟩ := List.mem_filterMap.1 hd
    rw [Clause.value_of_assign_eq_some ha hl]
    exact h c hc

theorem admits_assign (h : b.model.assigned l.name = none) :
    (b.assign l).Admits v ↔ b.Admits v ∧ l.value v = true := by
  rw [Admits, Admits, Literal.value_eq_true_iff]
  have hm : (b.assign l).model.Agrees v ↔ b.model.Agrees v ∧ v l.name = l.polarity :=
    Model.agrees_set h
  rw [hm]
  constructor
  · intro h
    obtain ⟨⟨ha, hv⟩, hs⟩ := h
    exact ⟨⟨ha, (satisfies_assign (Literal.value_eq_true_iff.2 hv)).1 hs⟩, hv⟩
  · intro h
    obtain ⟨⟨ha, hs⟩, hv⟩ := h
    exact ⟨⟨ha, hv⟩, (satisfies_assign (Literal.value_eq_true_iff.2 hv)).2 hs⟩

/-- What remains in the clauses was there before, and is not on the assigned symbol. -/
theorem mem_of_occurring_assign {k : Literal} (h : k ∈ occurringLiterals (b.assign l).clauses) :
    k ∈ occurringLiterals b.clauses ∧ k.name ≠ l.name := by
  obtain ⟨d, hd, hk⟩ := exists_mem_of_occurring.1 h
  obtain ⟨c, hc, ha⟩ := List.mem_filterMap.1 hd
  have hkc := (Clause.mem_of_assign ha).1 hk
  refine ⟨exists_mem_of_occurring.2 ⟨c, hc, hkc.1⟩, fun hn => ?_⟩
  rcases Literal.eq_or_eq_negate_of_name_eq hn with rfl | rfl
  · rw [Clause.assign_eq_none_iff.2 hkc.1] at ha
    cases ha
  · exact hkc.2 rfl

theorem keys_assign (h : l.name ∈ b.model) : (b.assign l).model.keys = b.model.keys :=
  Model.keys_set h _

theorem Open.assign {k : Literal} (h : b.Open k) (hl : b.Open l) (hn : k.name ≠ l.name) :
    (b.assign l).Open k where
  known := by
    rw [SortedMap.mem_iff_mem_keys, keys_assign hl.known]
    exact h.known
  unassigned := by
    show (b.model.set l.name l.polarity).assigned k.name = none
    rw [Model.assigned_set, if_neg hn]
    exact h.unassigned

theorem WellFormed.assign (h : b.WellFormed) (hl : b.Open l) : (b.assign l).WellFormed where
  known := by
    intro k hk
    obtain ⟨hk, hn⟩ := mem_of_occurring_assign hk
    exact ((h.isOpen hk).assign hl hn).known
  unassigned := by
    intro k hk
    obtain ⟨hk, hn⟩ := mem_of_occurring_assign hk
    exact ((h.isOpen hk).assign hl hn).unassigned

/-! ## Runs of assignments -/

/-- The second branch comes from the first one by assigning symbols that have no value. -/
inductive Reaches : Branch → Branch → Prop
  | refl (b : Branch) : Reaches b b
  | assign {b b' : Branch} {l : Literal} (isOpen : b.Open l) (rest : Reaches (b.assign l) b') :
    Reaches b b'

theorem Reaches.trans {b'' : Branch} (h : b.Reaches b') (h' : b'.Reaches b'') :
    b.Reaches b'' := by
  induction h with
  | refl => exact h'
  | assign hl _ ih => exact .assign hl (ih h')

theorem Reaches.wellFormed (h : b.Reaches b') (hb : b.WellFormed) : b'.WellFormed := by
  induction h with
  | refl => exact hb
  | assign hl _ ih => exact ih (hb.assign hl)

theorem Reaches.keys (h : b.Reaches b') : b'.model.keys = b.model.keys := by
  induction h with
  | refl => rfl
  | assign hl _ ih => rw [ih, keys_assign hl.known]

theorem Reaches.admits (h : b.Reaches b') (hv : b'.Admits v) : b.Admits v := by
  induction h with
  | refl => exact hv
  | assign hl _ ih => exact ((admits_assign hl.unassigned).1 (ih hv)).1

theorem reaches_foldl_assign {ls : List Literal} (hn : ls.Pairwise (·.name ≠ ·.name))
    (ho : ∀ l ∈ ls, b.Open l) : b.Reaches (ls.foldl Branch.assign b) := by
  induction ls generalizing b with
  | nil => exact .refl b
  | cons l ls ih =>
    obtain ⟨hl, hls⟩ := List.pairwise_cons.1 hn
    have hb := ho l List.mem_cons_self
    refine .assign hb (ih hls fun k hk => ?_)
    exact (ho k (List.mem_cons_of_mem _ hk)).assign hb (hl k hk).symm

theorem admits_foldl_assign {ls : List Literal} (hn : ls.Pairwise (·.name ≠ ·.name))
    (ho : ∀ l ∈ ls, b.Open l) :
    (ls.foldl Branch.assign b).Admits v ↔ b.Admits v ∧ ∀ l ∈ ls, l.value v = true := by
  induction ls generalizing b with
  | nil => simp
  | cons l ls ih =>
    obtain ⟨hl, hls⟩ := List.pairwise_cons.1 hn
    have hb := ho l List.mem_cons_self
    have ho' : ∀ k ∈ ls, (b.assign l).Open k := fun k hk =>
      (ho k (List.mem_cons_of_mem _ hk)).assign hb (hl k hk).symm
    rw [List.foldl_cons, ih hls ho', admits_assign hb.unassigned, List.forall_mem_cons, and_assoc]

/-! ## Unit propagation -/

theorem reaches_propagateUnits (h : b.WellFormed) : b.Reaches b.propagateUnits := by
  fun_induction propagateUnits b with
  | case1 b | case2 b => exact .refl b
  | case3 b _ l hu ih =>
    have hl := h.isOpen (exists_mem_of_occurring.2 (exists_mem_of_unit? hu))
    exact .assign hl (ih (h.assign hl))

/-- A unit is true under every valuation that satisfies the clauses. -/
theorem value_of_unit? (hu : b.unit? = some l) (hv : Satisfies v b.clauses) :
    l.value v = true := by
  obtain ⟨c, hc, hl⟩ := List.exists_of_findSome?_eq_some hu
  have hcv := hv c hc
  rw [Clause.value_eq_true_iff, Clause.literals_of_unit? hl] at hcv
  simpa using hcv

theorem admits_propagateUnits (h : b.WellFormed) (hv : b.Admits v) :
    b.propagateUnits.Admits v := by
  fun_induction propagateUnits b with
  | case1 | case2 => exact hv
  | case3 b _ l hu ih =>
    have hl := h.isOpen (exists_mem_of_occurring.2 (exists_mem_of_unit? hu))
    exact ih (h.assign hl) ((admits_assign hl.unassigned).2 ⟨hv, value_of_unit? hu hv.2⟩)

/-! ## Pure literals -/

/-- Pure literals are on distinct symbols. -/
theorem pairwise_pureLiterals (cs : List Clause) :
    (pureLiterals cs).Pairwise (·.name ≠ ·.name) := by
  have hd : (pureLiterals cs).Nodup := nodup_eraseDups _
  refine hd.imp_of_mem fun {l k} hl hk hne hn => ?_
  rcases Literal.eq_or_eq_negate_of_name_eq hn with rfl | rfl
  · exact hne rfl
  · exact (mem_pureLiterals.1 hk).2 (mem_pureLiterals.1 hl).1

theorem WellFormed.isOpen_pure (h : b.WellFormed) :
    ∀ l ∈ pureLiterals b.clauses, b.Open l :=
  fun _ hl => h.isOpen (mem_pureLiterals.1 hl).1

theorem WellFormed.reaches_pure (h : b.WellFormed) :
    b.Reaches ((pureLiterals b.clauses).foldl Branch.assign b) :=
  reaches_foldl_assign (pairwise_pureLiterals _) h.isOpen_pure

theorem reaches_assignPure (h : b.WellFormed) : b.Reaches b.assignPure := by
  fun_induction assignPure b with
  | case1 b | case2 b => exact .refl b
  | case3 b _ l ls hp ih =>
    have hr := h.reaches_pure
    rw [hp] at hr
    exact hr.trans (ih (hr.wellFormed h))

end Branch

/-- The valuation that makes the literals of a list true and is as before on all other names. -/
def Valuation.override (v : Valuation) (ls : List Literal) : Valuation := fun name =>
  match ls.find? (·.name = name) with
  | some l => l.polarity
  | none => v name

theorem Valuation.override_of_mem {ls : List Literal} (hn : ls.Pairwise (·.name ≠ ·.name))
    {l : Literal} (hl : l ∈ ls) : l.value (v.override ls) = true := by
  rw [Literal.value_eq_true_iff]
  induction ls with
  | nil => cases hl
  | cons k ls ih =>
    obtain ⟨hk, hls⟩ := List.pairwise_cons.1 hn
    rcases List.mem_cons.1 hl with rfl | hl
    · simp [override]
    · have hne := hk l hl
      rw [← ih hls hl]
      simp [override, hne]

theorem Valuation.override_of_forall_ne {ls : List Literal} {name : String}
    (h : ∀ l ∈ ls, l.name ≠ name) : v.override ls name = v name := by
  have hf : ls.find? (·.name = name) = none := by
    simpa using h
  rw [override, hf]

namespace Branch

variable {b : Branch}

/-- Making the pure literals true spoils no clause, as no clause has one of their complements. -/
theorem satisfies_override_pure {cs : List Clause} (h : Satisfies v cs) :
    Satisfies (v.override (pureLiterals cs)) cs := by
  intro c hc
  obtain ⟨k, hk, hv⟩ := Clause.value_eq_true_iff.1 (h c hc)
  refine Clause.value_eq_true_iff.2 ⟨k, hk, ?_⟩
  by_cases hp : ∃ l ∈ pureLiterals cs, l.name = k.name
  · obtain ⟨l, hl, hn⟩ := hp
    rcases Literal.eq_or_eq_negate_of_name_eq hn with rfl | rfl
    · exact Valuation.override_of_mem (pairwise_pureLiterals cs) hl
    · -- The complement of a pure literal occurs nowhere.
      have hocc : k ∈ occurringLiterals cs := exists_mem_of_occurring.2 ⟨c, hc, hk⟩
      exact absurd (by rwa [Literal.negate_negate]) (mem_pureLiterals.1 hl).2
  · have hne : ∀ l ∈ pureLiterals cs, l.name ≠ k.name := fun l hl hn => hp ⟨l, hl, hn⟩
    rw [Literal.value, Valuation.override_of_forall_ne hne]
    exact hv

theorem admits_foldl_pure (h : b.WellFormed) (hv : b.Admits v) :
    ((pureLiterals b.clauses).foldl Branch.assign b).Admits
      (v.override (pureLiterals b.clauses)) := by
  refine (admits_foldl_assign (pairwise_pureLiterals _) h.isOpen_pure).2 ⟨⟨?_, ?_⟩, ?_⟩
  · intro name a ha
    have hne : ∀ l ∈ pureLiterals b.clauses, l.name ≠ name := by
      intro l hl he
      have hn := (h.isOpen_pure l hl).unassigned
      rw [he, ha] at hn
      cases hn
    rw [Valuation.override_of_forall_ne hne]
    exact hv.1 name a ha
  · exact satisfies_override_pure hv.2
  · exact fun l hl => Valuation.override_of_mem (pairwise_pureLiterals _) hl

theorem exists_admits_assignPure (h : b.WellFormed) (hv : b.Admits v) :
    ∃ w, b.assignPure.Admits w := by
  fun_induction assignPure b generalizing v with
  | case1 | case2 => exact ⟨v, hv⟩
  | case3 b _ l ls hp ih =>
    have hr := h.reaches_pure
    have ha := admits_foldl_pure h hv
    rw [hp] at hr ha
    exact ih (hr.wellFormed h) ha

/-! ## Simplification -/

theorem reaches_simplify (h : b.WellFormed) : b.Reaches b.simplify :=
  have hu := reaches_propagateUnits h
  hu.trans (reaches_assignPure (hu.wellFormed h))

theorem exists_admits_simplify (h : b.WellFormed) (hv : b.Admits v) :
    ∃ w, b.simplify.Admits w :=
  exists_admits_assignPure ((reaches_propagateUnits h).wellFormed h) (admits_propagateUnits h hv)

end Branch

end Entailment
