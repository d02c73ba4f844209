import Entailment.SortedSet

/-!
Finite maps that list their entries in ascending order of the keys.

`SortedMap.get?` is the view of a map: `get?_insert` says what an insertion does to it, and
`SortedMap.ext` makes two maps with the same values under every key equal.
-/

namespace Entailment

/-- A finite map, as the list of its entries in ascending order of the keys. -/
structure SortedMap (κ α : Type) [Ord κ] where
  /-- The keys with their values, in ascending order of the keys. -/
  entries : List (κ × α)
  ascending : Ascending Prod.fst entries
deriving DecidableEq

namespace SortedMap

variable {κ α : Type} [Ord κ]

/-- The map without entries. -/
def empty : SortedMap κ α :=
  ⟨[], Ascending.nil _⟩

instance : EmptyCollection (SortedMap κ α) where
  emptyCollection := empty

instance : Inhabited (SortedMap κ α) where
  default := ∅

@[simp] theorem entries_empty : (∅ : SortedMap κ α).entries = [] :=
  rfl

/-- The values, in ascending order of their keys. -/
def values (m : SortedMap κ α) : List α :=
  m.entries.map Prod.snd

/-- The keys. -/
def keys (m : SortedMap κ α) : SortedSet κ :=
  ⟨m.entries.map Prod.fst, List.pairwise_map.2 m.ascending⟩

instance : Membership κ (SortedMap κ α) where
  mem m k := k ∈ m.keys

theorem mem_iff_mem_keys {m : SortedMap κ α} {k : κ} : k ∈ m ↔ k ∈ m.keys :=
  Iff.rfl

@[simp] theorem keys_empty : (∅ : SortedMap κ α).keys = ∅ :=
  rfl

theorem mem_iff {m : SortedMap κ α} {k : κ} : k ∈ m ↔ ∃ v, (k, v) ∈ m.entries := by
  rw [mem_iff_mem_keys, ← SortedSet.mem_toList]
  simp [keys]

variable [DecidableEq κ]

instance (k : κ) (m : SortedMap κ α) : Decidable (k ∈ m) :=
  inferInstanceAs (Decidable (k ∈ m.keys))

/-- The value under a key, if the key is one of the map. -/
def get? (m : SortedMap κ α) (k : κ) : Option α :=
  m.entries.lookup k

@[simp] theorem get?_empty (k : κ) : (∅ : SortedMap κ α).get? k = none :=
  rfl

variable [Std.TransOrd κ] [Std.LawfulEqOrd κ]

/-- The value under a key is the one of its entry. -/
theorem get?_eq_some_iff {m : SortedMap κ α} {k : κ} {v : α} :
    m.get? k = some v ↔ (k, v) ∈ m.entries := by
  obtain ⟨es, sorted⟩ := m
  simp only [get?]
  induction es with
  | nil => simp
  | cons e es ih =>
    obtain ⟨k', v'⟩ := e
    have ⟨below, rest⟩ := List.pairwise_cons.1 sorted
    by_cases eq : k = k'
    · subst eq
      have fresh : (k, v) ∉ es := fun h => by
        simpa [Std.ReflCmp.compare_self] using below _ h
      simp [fresh, eq_comm]
    · have ne : (k == k') = false := by simpa using eq
      simpa [List.lookup_cons, ne, eq] using ih rest

theorem get?_eq_none_iff {m : SortedMap κ α} {k : κ} : m.get? k = none ↔ k ∉ m := by
  rw [mem_iff, Option.eq_none_iff_forall_ne_some]
  simp [get?_eq_some_iff]

theorem mem_iff_get? {m : SortedMap κ α} {k : κ} : k ∈ m ↔ ∃ v, m.get? k = some v := by
  simp [mem_iff, get?_eq_some_iff]

/-- Two maps with the same value under every key are equal. -/
@[ext] theorem ext {m n : SortedMap κ α} (same : ∀ k, m.get? k = n.get? k) : m = n := by
  have members : ∀ e, e ∈ m.entries ↔ e ∈ n.entries := fun (k, v) => by
    rw [← get?_eq_some_iff, ← get?_eq_some_iff, same]
  obtain ⟨es, he⟩ := m
  obtain ⟨fs, hf⟩ := n
  obtain rfl : es = fs := he.ext hf members
  rfl

/-- Puts a value under a key, instead of the value that was there. -/
def insert (m : SortedMap κ α) (k : κ) (v : α) : SortedMap κ α :=
  ⟨place Prod.fst (k, v) m.entries, m.ascending.place (k, v)⟩

@[simp] theorem get?_insert (m : SortedMap κ α) (k k' : κ) (v : α) :
    (m.insert k v).get? k' = if k' = k then some v else m.get? k' := by
  refine Option.ext fun w => ?_
  rw [get?_eq_some_iff, insert, mem_place_iff m.ascending]
  split
  · subst k'
    simp [eq_comm]
  · next ne => simp [get?_eq_some_iff, ne]

@[simp] theorem mem_insert {m : SortedMap κ α} {k k' : κ} {v : α} :
    k' ∈ m.insert k v ↔ k' = k ∨ k' ∈ m := by
  rw [mem_iff_get?, mem_iff_get?, get?_insert]
  by_cases eq : k' = k <;> simp [eq]

/-- The map that gives every key of a list the same value. -/
def const (ks : List κ) (v : α) : SortedMap κ α :=
  ks.foldl (fun m k => m.insert k v) ∅

@[simp] theorem get?_const (ks : List κ) (v : α) (k : κ) :
    (const ks v).get? k = if k ∈ ks then some v else none := by
  have run (ks : List κ) (m : SortedMap κ α) :
      (ks.foldl (fun m k => m.insert k v) m).get? k = if k ∈ ks then some v else m.get? k := by
    induction ks generalizing m with
    | nil => simp
    | cons k' ks ih =>
      rw [List.foldl_cons, ih, get?_insert]
      by_cases eq : k = k' <;> by_cases h : k ∈ ks <;> simp [eq, h]
  exact run ks ∅

end SortedMap

end Entailment
