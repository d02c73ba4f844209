import Entailment.Proofs.Valuation

/-!
# Total models

A model that is total on some symbols is given by its values on them (`Model.TotalOn.ext`). Of two
total models on the same symbols the first symbol on which they differ decides which comes first,
so the symbols on which they cannot differ need not be compared (`Model.TotalOn.compare_eq`).
-/

namespace Entailment.Model

variable {m n : Model} {names : SortedSet String} {name : String}

theorem TotalOn.mem_iff (h : m.TotalOn names) : name ∈ m ↔ name ∈ names := by
  rw [SortedMap.mem_iff_mem_keys, h.keys]

theorem TotalOn.assigned (h : m.TotalOn names) (hn : name ∈ names) :
    m.assigned name = some (m.valuation name) := by
  obtain ⟨b, hb⟩ := Option.isSome_iff_exists.1 (h.valued name hn)
  rw [hb, valuation_of_assigned hb]

theorem TotalOn.get?_eq (h : m.TotalOn names) (name : String) :
    m.get? name = if name ∈ names then some (some (m.valuation name)) else none := by
  split
  · next hn => exact Option.join_eq_some_iff.1 (h.assigned hn)
  · next hn => exact SortedMap.get?_eq_none_iff.2 (mt h.mem_iff.1 hn)

/-- Total models on the same symbols are equal if their values are. -/
theorem TotalOn.ext (hm : m.TotalOn names) (hn : n.TotalOn names)
    (same : ∀ name ∈ names, m.valuation name = n.valuation name) : m = n := by
  apply SortedMap.ext
  intro name
  rw [hm.get?_eq, hn.get?_eq]
  split
  · next h => rw [same name h]
  · rfl

theorem TotalOn.eq_ofValuation (h : m.TotalOn names) : m = ofValuation names m.valuation :=
  h.ext (totalOn_ofValuation names m.valuation) fun _ hn => (valuation_ofValuation hn).symm

/-! ## The order -/

instance : Std.TransCmp compareEntries :=
  inferInstanceAs (Std.TransCmp (compareLex (compareOn Prod.fst) (compareOn Prod.snd)))

theorem compare_self (m : Model) : compare m m = .eq :=
  @Std.ReflCmp.compare_self _ (List.compareLex compareEntries) _ m.entries

/-- No model is listed twice in ascending order. -/
theorem nodup_of_ascending {models : List Model}
    (h : models.Pairwise fun m n => compare m n = .lt) : models.Nodup := by
  refine h.imp fun {m n} lt eq => ?_
  rw [eq, compare_self] at lt
  cases lt

theorem compareEntries_same (name : String) (a b : Bool) :
    compareEntries (name, some a) (name, some b) = compare a b := by
  have fst : compareOn Prod.fst (name, some a) (name, some b) = .eq :=
    @Std.ReflCmp.compare_self String compare _ name
  rw [compareEntries, compareLex, fst]
  rfl

/-- Entries under the same names are compared by the values that may differ. -/
theorem compareLex_entries {v w : Valuation} {p : String → Bool} (xs : List String)
    (same : ∀ name ∈ xs, p name = false → v name = w name) :
    List.compareLex compareEntries (xs.map fun name => (name, some (v name)))
        (xs.map fun name => (name, some (w name))) =
      List.compareLex compare ((xs.filter p).map v) ((xs.filter p).map w) := by
  induction xs with
  | nil => rfl
  | cons name xs ih =>
    obtain ⟨here, rest⟩ := List.forall_mem_cons.1 same
    rw [List.map_cons, List.map_cons, List.compareLex_cons_cons, compareEntries_same, ih rest,
      List.filter_cons]
    split
    · rw [List.map_cons, List.map_cons, List.compareLex_cons_cons]
    · next hp =>
      have eq : compare (w name) (w name) = .eq := @Std.ReflCmp.compare_self Bool compare _ _
      rw [here (Bool.eq_false_iff.2 hp), eq]
      rfl

/-- Total models on the same symbols are compared by the values that may differ. -/
theorem TotalOn.compare_eq (hm : m.TotalOn names) (hn : n.TotalOn names) {p : String → Bool}
    (same : ∀ name ∈ names, p name = false → m.valuation name = n.valuation name) :
    compare m n = List.compareLex compare ((names.toList.filter p).map m.valuation)
      ((names.toList.filter p).map n.valuation) := by
  rw [← compareLex_entries names.toList same]
  show List.compareLex compareEntries m.entries n.entries = _
  rw [congrArg SortedMap.entries hm.eq_ofValuation, congrArg SortedMap.entries hn.eq_ofValuation]
  rfl

end Entailment.Model
