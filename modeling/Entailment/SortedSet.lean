import Entailment.Ascending

/-!
Finite sets that list their members in ascending order.

A set is its list of members, and the list of a set is unique: `SortedSet.ext` makes two sets with
the same members equal. Membership after each operation is given by one lemma.
-/

namespace Entailment

/-- A finite set, as the ascending list of its members. -/
structure SortedSet (α : Type) [Ord α] where
  /-- The members, in ascending order. -/
  toList : List α
  ascending : Ascending id toList
deriving DecidableEq

namespace SortedSet

variable {α : Type} [Ord α]

instance : Membership α (SortedSet α) where
  mem s x := x ∈ s.toList

theorem mem_toList {s : SortedSet α} {x : α} : x ∈ s.toList ↔ x ∈ s :=
  Iff.rfl

instance [DecidableEq α] (x : α) (s : SortedSet α) : Decidable (x ∈ s) :=
  inferInstanceAs (Decidable (x ∈ s.toList))

/-- The set without members. -/
def empty : SortedSet α :=
  ⟨[], Ascending.nil id⟩

instance : EmptyCollection (SortedSet α) where
  emptyCollection := empty

instance : Inhabited (SortedSet α) where
  default := ∅

@[simp] theorem toList_empty : (∅ : SortedSet α).toList = [] :=
  rfl

@[simp] theorem not_mem_empty (x : α) : x ∉ (∅ : SortedSet α) :=
  List.not_mem_nil

/-- The number of members. -/
def size (s : SortedSet α) : Nat :=
  s.toList.length

theorem nodup_toList [Std.ReflOrd α] (s : SortedSet α) : s.toList.Nodup := by
  have distinct := s.ascending.nodup
  rwa [List.map_id] at distinct

/-- Takes one member out. -/
def erase [DecidableEq α] (s : SortedSet α) (x : α) : SortedSet α :=
  ⟨s.toList.filter (· ≠ x), s.ascending.filter _⟩

@[simp] theorem mem_erase [DecidableEq α] {s : SortedSet α} {x y : α} :
    y ∈ s.erase x ↔ y ≠ x ∧ y ∈ s := by
  refine List.mem_filter.trans ?_
  rw [decide_eq_true_iff, and_comm, mem_toList]

variable [Std.TransOrd α] [Std.LawfulEqOrd α]

/-- Two sets with the same members are equal. -/
@[ext] theorem ext {s t : SortedSet α} (same : ∀ x, x ∈ s ↔ x ∈ t) : s = t := by
  obtain ⟨xs, hx⟩ := s
  obtain ⟨ys, hy⟩ := t
  obtain rfl : xs = ys := hx.ext hy same
  rfl

/-- Adds one member. -/
def insert (s : SortedSet α) (x : α) : SortedSet α :=
  ⟨place id x s.toList, s.ascending.place x⟩

@[simp] theorem mem_insert {s : SortedSet α} {x y : α} : y ∈ s.insert x ↔ y = x ∨ y ∈ s := by
  refine (mem_place_iff s.ascending).trans ⟨fun h => h.imp_right And.left, ?_⟩
  rintro (rfl | h)
  · exact .inl rfl
  · exact (Classical.em (y = x)).imp_right fun ne => ⟨h, ne⟩

theorem insert_of_mem {s : SortedSet α} {x : α} (h : x ∈ s) : s.insert x = s := by
  ext y
  rw [mem_insert, or_iff_right_iff_imp]
  rintro rfl
  exact h

/-- A new member is taken out again. -/
theorem erase_insert [DecidableEq α] {s : SortedSet α} {x : α} (h : x ∉ s) :
    (s.insert x).erase x = s := by
  ext y
  rw [mem_erase, mem_insert]
  constructor
  · intro hy
    exact hy.2.resolve_left hy.1
  · intro hy
    refine ⟨?_, .inr hy⟩
    rintro rfl
    exact h hy

/-- Adds every element of a list. -/
def insertAll (s : SortedSet α) (xs : List α) : SortedSet α :=
  xs.foldl insert s

@[simp] theorem mem_insertAll {s : SortedSet α} {xs : List α} {y : α} :
    y ∈ s.insertAll xs ↔ y ∈ xs ∨ y ∈ s := by
  induction xs generalizing s with
  | nil => simp [insertAll]
  | cons x xs ih =>
    rw [insertAll, List.foldl_cons, ← insertAll, ih, mem_insert, List.mem_cons]
    exact ⟨fun h => h.elim (.inl ∘ .inr) (Or.imp_left .inl), fun h =>
      h.elim (fun h => h.elim (.inr ∘ .inl) .inl) (.inr ∘ .inr)⟩

/-- The set of the elements of a list. -/
def ofList (xs : List α) : SortedSet α :=
  insertAll ∅ xs

@[simp] theorem mem_ofList {xs : List α} {y : α} : y ∈ ofList xs ↔ y ∈ xs := by
  simp [ofList]

/-- The members of either set. -/
def union (s t : SortedSet α) : SortedSet α :=
  s.insertAll t.toList

@[simp] theorem mem_union {s t : SortedSet α} {y : α} : y ∈ s.union t ↔ y ∈ s ∨ y ∈ t := by
  simp [union, mem_toList, or_comm]

end SortedSet

end Entailment
