/-!
# Results, lists and loops

Facts about the results of fallible computations, about lists without repetitions and about loops
that the theory needs and that have nothing to do with sentences.
-/

namespace Entailment

section
variable {ε α β : Type}

theorem bind_eq_ok {x : Except ε α} {f : α → Except ε β} {b : β} :
    (x >>= f) = .ok b ↔ ∃ a, x = .ok a ∧ f a = .ok b := by
  cases x with
  | error e =>
    constructor
    · intro h
      cases h
    · intro h
      obtain ⟨a, ha, -⟩ := h
      cases ha
  | ok a =>
    constructor
    · intro h
      exact ⟨a, rfl, h⟩
    · intro h
      obtain ⟨a', ha, hb⟩ := h
      cases ha
      exact hb

theorem bind_eq_error {x : Except ε α} {f : α → Except ε β} {e : ε} :
    (x >>= f) = .error e ↔ x = .error e ∨ ∃ a, x = .ok a ∧ f a = .error e := by
  cases x with
  | error e' =>
    constructor
    · intro h
      cases h
      exact .inl rfl
    · rintro (h | ⟨a, ha, -⟩)
      · cases h
        rfl
      · cases ha
  | ok a =>
    constructor
    · intro h
      exact .inr ⟨a, rfl, h⟩
    · rintro (h | ⟨a', ha, h⟩)
      · cases h
      · cases ha
        exact h

theorem map_eq_ok {x : Except ε α} {f : α → β} {b : β} :
    x.map f = .ok b ↔ ∃ a, x = .ok a ∧ f a = b := by
  cases x with
  | error e =>
    constructor
    · intro h
      cases h
    · rintro ⟨a, ha, -⟩
      cases ha
  | ok a => simp [Except.map]

theorem map_eq_error {x : Except ε α} {f : α → β} {e : ε} :
    x.map f = .error e ↔ x = .error e := by
  cases x <;> simp [Except.map]

theorem eq_of_mapError_eq_error {ε' : Type} {x : Except ε α} {f : ε → ε'} {e : ε'}
    (h : x.mapError f = .error e) : ∃ e', x = .error e' ∧ f e' = e := by
  cases x with
  | error e' =>
    cases h
    exact ⟨e', rfl, rfl⟩
  | ok a => cases h

/-- A computation fails if it has no result. -/
theorem exists_error_iff {x : Except ε α} : (∃ e, x = .error e) ↔ ¬ ∃ a, x = .ok a := by
  cases x <;> simp

theorem pure_eq_ok {a b : α} : (pure a : Except ε α) = .ok b ↔ a = b := by
  show Except.ok a = .ok b ↔ a = b
  rw [Except.ok.injEq]

/-- A test that never fails holds of all elements, or does not, as its answers say. -/
theorem allM_eq_ok {p : α → Except ε Bool} {q : α → Bool} {xs : List α}
    (h : ∀ x ∈ xs, p x = .ok (q x)) : xs.allM p = .ok (xs.all q) := by
  induction xs with
  | nil => rfl
  | cons x xs ih =>
    obtain ⟨hx, hxs⟩ := List.forall_mem_cons.1 h
    rw [List.allM_cons, hx, List.all_cons]
    cases hq : q x with
    | false => rfl
    | true => exact ih hxs

/-- A test that never fails keeps the elements that its answers keep. -/
theorem filterM_eq_ok {p : α → Except ε Bool} {q : α → Bool} {xs : List α}
    (h : ∀ x ∈ xs, p x = .ok (q x)) : xs.filterM p = .ok (xs.filter q) := by
  have run (kept : List α) :
      xs.filterAuxM p kept = .ok ((xs.filter q).reverse ++ kept) := by
    induction xs generalizing kept with
    | nil => rfl
    | cons x xs ih =>
      obtain ⟨hx, hxs⟩ := List.forall_mem_cons.1 h
      rw [List.filterAuxM, hx, List.filter_cons]
      refine (ih hxs _).trans ?_
      cases hq : q x <;> simp
  rw [List.filterM, run, List.append_nil]
  exact congrArg Except.ok (List.reverse_reverse _)

/-- A fold fails at the first element that it has no result for. -/
theorem foldlM_eq_error {f : β → α → Except ε β} {xs : List α} {b : β} {e : ε}
    (h : xs.foldlM f b = .error e) :
    ∃ before x after mid, xs = before ++ x :: after ∧ before.foldlM f b = .ok mid ∧
      f mid x = .error e := by
  induction xs generalizing b with
  | nil => cases h
  | cons x xs ih =>
    rw [List.foldlM_cons] at h
    rcases bind_eq_error.1 h with h | ⟨mid, hm, h⟩
    · exact ⟨[], x, xs, b, rfl, rfl, h⟩
    · obtain ⟨before, y, after, last, rfl, hl, hy⟩ := ih h
      refine ⟨x :: before, y, after, last, rfl, ?_, hy⟩
      rw [List.foldlM_cons]
      exact bind_eq_ok.2 ⟨mid, hm, hl⟩

/-- Of lists without repetitions, a part of a list is as long as the list if it is all of it. -/
theorem length_eq_iff_subset {xs ys : List α} (hx : xs.Nodup) (hy : ys.Nodup) (part : xs ⊆ ys) :
    xs.length = ys.length ↔ ys ⊆ xs := by
  constructor
  · intro same y hm
    apply Classical.byContradiction
    intro fresh
    -- With one element more the part would be longer than the list.
    have more : (y :: xs).length ≤ ys.length :=
      (List.nodup_cons.2 ⟨fresh, hx⟩).length_le_of_subset (List.cons_subset.2 ⟨hm, part⟩)
    rw [List.length_cons] at more
    omega
  · intro back
    exact Nat.le_antisymm (hx.length_le_of_subset part) (hy.length_le_of_subset back)

end

theorem nodup_eraseDups {α : Type} [DecidableEq α] (xs : List α) : xs.eraseDups.Nodup := by
  induction hn : xs.length using Nat.strongRecOn generalizing xs with
  | ind n ih =>
    cases xs with
    | nil => simp
    | cons x xs =>
      rw [List.eraseDups_cons, List.nodup_cons]
      have hlt : (xs.filter fun y => !y == x).length < n := by
        have := List.length_filter_le (fun y => !y == x) xs
        rw [← hn, List.length_cons]
        omega
      exact ⟨by simp, ih _ hlt _ rfl⟩

theorem eraseDups_sublist {α : Type} [DecidableEq α] (xs : List α) : xs.eraseDups.Sublist xs := by
  induction hn : xs.length using Nat.strongRecOn generalizing xs with
  | ind n ih =>
    cases xs with
    | nil => exact .slnil
    | cons x xs =>
      have shorter : (xs.filter fun y => !y == x).length < n := by
        have := List.length_filter_le (fun y => !y == x) xs
        rw [← hn, List.length_cons]
        omega
      rw [List.eraseDups_cons]
      exact ((ih _ shorter _ rfl).trans List.filter_sublist).cons_cons x

theorem eraseDups_of_nodup {α : Type} [DecidableEq α] {xs : List α} (h : xs.Nodup) :
    xs.eraseDups = xs := by
  induction xs with
  | nil => rfl
  | cons x xs ih =>
    obtain ⟨fresh, h⟩ := List.nodup_cons.1 h
    have rest : (xs.filter fun y => !y == x) = xs := by
      refine List.filter_eq_self.2 fun y hy => ?_
      have : y ≠ x := fun same => fresh (same ▸ hy)
      simpa using this
    rw [List.eraseDups_cons, rest, ih h]

/-- The loop that takes turns as long as a condition holds comes to an end: from the first state it
ends in the second. -/
inductive LoopEnds {α : Type} (goesOn : α → Prop) (turn : α → α) : α → α → Prop
  | stop {a : α} (done : ¬ goesOn a) : LoopEnds goesOn turn a a
  | step {a b : α} (more : goesOn a) (rest : LoopEnds goesOn turn (turn a) b) :
    LoopEnds goesOn turn a b

namespace LoopEnds

variable {α : Type} {goesOn : α → Prop} {turn : α → α} {a b c : α}

theorem not_goesOn (h : LoopEnds goesOn turn a b) : ¬ goesOn b := by
  induction h with
  | stop done => exact done
  | step _ _ ih => exact ih

theorem unique (h : LoopEnds goesOn turn a b) (h' : LoopEnds goesOn turn a c) : b = c := by
  induction h with
  | stop done =>
    cases h' with
    | stop _ => rfl
    | step more _ => exact absurd more done
  | step more _ ih =>
    cases h' with
    | stop done => exact absurd more done
    | step _ rest => exact ih rest

/-- The end is reached in a number of turns. -/
theorem exists_repeat (h : LoopEnds goesOn turn a b) : ∃ n, Nat.repeat turn n a = b := by
  have shift (n : Nat) (a : α) : Nat.repeat turn (n + 1) a = Nat.repeat turn n (turn a) := by
    induction n with
    | zero => rfl
    | succ n ih => exact congrArg turn ih
  induction h with
  | stop _ => exact ⟨0, rfl⟩
  | step _ _ ih =>
    obtain ⟨n, hn⟩ := ih
    exact ⟨n + 1, (shift n _).trans hn⟩

end LoopEnds

end Entailment
