/-!
Lists in ascending order of a key, the common ground of the sets and maps of this library.

`place` puts one element where its key belongs, instead of the element that had that key. It keeps
a list ascending (`Ascending.place`), and `mem_place_iff` says what the list then holds.
-/

namespace Entailment

variable {α κ : Type} [Ord κ]

/-- The keys strictly ascend, so that no key occurs twice. -/
def Ascending (key : α → κ) (xs : List α) : Prop :=
  xs.Pairwise fun x y => compare (key x) (key y) = .lt

/-- Puts an element at the place of its key, instead of the element that has this key so far. -/
def place (key : α → κ) (x : α) : List α → List α
  | [] => [x]
  | y :: ys =>
    match compare (key x) (key y) with
    | .lt => x :: y :: ys
    | .eq => x :: ys
    | .gt => y :: place key x ys

theorem Ascending.nil (key : α → κ) : Ascending key ([] : List α) :=
  List.Pairwise.nil

/-- The keys of an ascending list are distinct. -/
theorem Ascending.nodup [Std.ReflOrd κ] {key : α → κ} {xs : List α} (h : Ascending key xs) :
    (xs.map key).Nodup := by
  refine List.pairwise_map.2 (h.imp fun {x y} lt eq => ?_)
  simp [eq, Std.ReflCmp.compare_self] at lt

theorem mem_of_mem_place {key : α → κ} {x z : α} {ys : List α} (h : z ∈ place key x ys) :
    z = x ∨ z ∈ ys := by
  induction ys with
  | nil => simpa [place] using h
  | cons y ys ih =>
    simp only [place] at h
    split at h
    · simpa using h
    · rcases List.mem_cons.1 h with rfl | h
      · exact .inl rfl
      · exact .inr (List.mem_cons_of_mem _ h)
    · rcases List.mem_cons.1 h with rfl | h
      · exact .inr List.mem_cons_self
      · exact (ih h).imp_right (List.mem_cons_of_mem _)

variable [Std.TransOrd κ] [Std.LawfulEqOrd κ]

theorem Ascending.place {key : α → κ} {ys : List α} (h : Ascending key ys) (x : α) :
    Ascending key (place key x ys) := by
  induction ys with
  | nil => exact List.pairwise_singleton _ _
  | cons y ys ih =>
    have ⟨below, rest⟩ := List.pairwise_cons.1 h
    simp only [Entailment.place]
    split
    case h_1 lt =>
      refine List.pairwise_cons.2 ⟨fun z hz => ?_, h⟩
      rcases List.mem_cons.1 hz with rfl | hz
      · exact lt
      · exact Std.TransCmp.lt_trans lt (below z hz)
    case h_2 eq =>
      refine List.pairwise_cons.2 ⟨fun z hz => ?_, rest⟩
      rw [Std.LawfulEqCmp.eq_of_compare eq]
      exact below z hz
    case h_3 gt =>
      refine List.pairwise_cons.2 ⟨fun z hz => ?_, ih rest⟩
      rcases mem_of_mem_place hz with rfl | hz
      · exact Std.OrientedCmp.gt_iff_lt.1 gt
      · exact below z hz

/-- After placing an element the list holds it, and what it held under other keys. -/
theorem mem_place_iff {key : α → κ} {ys : List α} (h : Ascending key ys) {x z : α} :
    z ∈ place key x ys ↔ z = x ∨ (z ∈ ys ∧ key z ≠ key x) := by
  induction ys with
  | nil => simp [place]
  | cons y ys ih =>
    have ⟨below, rest⟩ := List.pairwise_cons.1 h
    have apart {a b : α} (lt : compare (key a) (key b) = .lt) : key a ≠ key b := by
      intro eq
      simp [eq, Std.ReflCmp.compare_self] at lt
    simp only [place]
    split
    case h_1 lt =>
      -- The key is new and smaller than all others.
      have above : ∀ z ∈ y :: ys, key z ≠ key x := fun z hz => by
        rcases List.mem_cons.1 hz with rfl | hz
        · exact (apart lt).symm
        · exact (apart (Std.TransCmp.lt_trans lt (below z hz))).symm
      rw [List.mem_cons]
      exact or_congr_right ⟨fun hz => ⟨hz, above z hz⟩, And.left⟩
    case h_2 eq =>
      -- The key is that of the first element, which gives way.
      have eq := Std.LawfulEqCmp.eq_of_compare eq
      have above : ∀ z ∈ ys, key z ≠ key x := fun z hz => by
        rw [eq]
        exact (apart (below z hz)).symm
      simp only [List.mem_cons]
      constructor
      · rintro (rfl | hz)
        · exact .inl rfl
        · exact .inr ⟨.inr hz, above z hz⟩
      · rintro (rfl | ⟨rfl | hz, ne⟩)
        · exact .inl rfl
        · exact absurd eq.symm ne
        · exact .inr hz
    case h_3 gt =>
      -- The first element stays, as its key is smaller.
      have ne := apart (Std.OrientedCmp.gt_iff_lt.1 gt)
      simp only [List.mem_cons, ih rest]
      constructor
      · rintro (rfl | rfl | ⟨hz, hne⟩)
        · exact .inr ⟨.inl rfl, ne⟩
        · exact .inl rfl
        · exact .inr ⟨.inr hz, hne⟩
      · rintro (rfl | ⟨rfl | hz, hne⟩)
        · exact .inr (.inl rfl)
        · exact .inl rfl
        · exact .inr (.inr ⟨hz, hne⟩)

/-- Two ascending lists with the same members are equal. -/
theorem Ascending.ext {key : α → κ} {xs ys : List α} (hx : Ascending key xs)
    (hy : Ascending key ys) (same : ∀ z, z ∈ xs ↔ z ∈ ys) : xs = ys := by
  induction xs generalizing ys with
  | nil =>
    cases ys with
    | nil => rfl
    | cons y ys => simpa using (same y).2 List.mem_cons_self
  | cons x xs ih =>
    cases ys with
    | nil => simpa using (same x).1 List.mem_cons_self
    | cons y ys =>
      have ⟨belowX, restX⟩ := List.pairwise_cons.1 hx
      have ⟨belowY, restY⟩ := List.pairwise_cons.1 hy
      have irrefl (a : α) : compare (key a) (key a) ≠ .lt := by
        simp [Std.ReflCmp.compare_self]
      -- Each head is the least element of its list, and the lists have the same elements.
      have heads : x = y := by
        rcases List.mem_cons.1 ((same x).1 List.mem_cons_self) with eq | inY
        · exact eq
        · rcases List.mem_cons.1 ((same y).2 List.mem_cons_self) with eq | inX
          · exact eq.symm
          · exact absurd (Std.TransCmp.lt_trans (belowX y inX) (belowY x inY)) (irrefl x)
      subst heads
      -- The tails have the same elements too, as no tail has the head again.
      have tails : xs = ys := ih restX restY fun z => by
        constructor
        · intro hz
          rcases List.mem_cons.1 ((same z).1 (List.mem_cons_of_mem _ hz)) with rfl | h
          · exact absurd (belowX z hz) (irrefl z)
          · exact h
        · intro hz
          rcases List.mem_cons.1 ((same z).2 (List.mem_cons_of_mem _ hz)) with rfl | h
          · exact absurd (belowY z hz) (irrefl z)
          · exact h
      rw [tails]

end Entailment
