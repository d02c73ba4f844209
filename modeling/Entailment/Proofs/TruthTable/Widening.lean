import Mathlib.Algebra.Group.Nat.Defs
import Mathlib.Data.List.Nodup
import Mathlib.Data.List.ProdSigma
import Entailment.Proofs.TruthTable.Candidates

/-!
# Symbols on which nothing hangs

A total model on some symbols can be completed to one on further symbols, by any choice of values
for these. Two models or two choices give two completions (`nodup_completions`), and every total
model on all the symbols is one (`mem_completions`). So a property that does not hang on the `k`
further symbols has `2 ^ k` times as many models on all of them (`length_eq_two_pow_mul`).
-/

namespace Entailment.TruthTable

/-! ## The number of choices -/

section
variable {digits : List Bool} {counted : List (List Bool)}

theorem length_countFrom (counted : List (List Bool)) (digits : List Bool) :
    (countFrom counted digits).length = counted.length + (remaining digits + 1) := by
  fun_induction countFrom counted digits with
  | case1 counted digits last =>
    rw [remaining_of_next?_eq_none last, List.length_cons]
  | case2 counted digits succ found ih =>
    have step := remaining_next? found
    rw [ih, List.length_cons]
    omega

theorem length_countUp (n : Nat) : (countUp n).length = 2 ^ n := by
  rw [countUp, List.length_reverse, length_countFrom, remaining_replicate_false, List.length_nil,
    Nat.zero_add]
  rfl

theorem nodup_countUp (n : Nat) : (countUp n).Nodup := by
  refine (pairwise_countUp n).imp fun {d e} lt eq => ?_
  have same : List.compareLex compare d d = .eq :=
    @Std.ReflCmp.compare_self _ (List.compareLex compare) _ d
  rw [← eq, same] at lt
  cases lt

end

/-! ## Completions -/

variable {names names' : SortedSet String} {new : List String} {m n : Model} {ms ms' : List Model}
  {digits other : List Bool} {name : String}

/-- The names of the second set are those of the first one and the new ones. -/
structure Adds (names : SortedSet String) (new : List String) (names' : SortedSet String) :
    Prop where
  distinct : new.Nodup
  fresh : ∀ name ∈ new, name ∉ names
  mem_iff : ∀ name, name ∈ names' ↔ name ∈ names ∨ name ∈ new

theorem valuation_setAll_of_not_mem (h : name ∉ new) :
    (setAll m new digits).valuation name = m.valuation name := by
  rw [Model.valuation, assigned_setAll_of_not_mem h, Model.valuation]

theorem Adds.valuation_setAll (h : Adds names new names') (hn : name ∈ names) :
    (setAll m new digits).valuation name = m.valuation name :=
  valuation_setAll_of_not_mem fun hnew => h.fresh name hnew hn

theorem Adds.totalOn_setAll (h : Adds names new names') (hm : m.TotalOn names)
    (hd : digits.length = new.length) : (setAll m new digits).TotalOn names' where
  keys := by
    apply SortedSet.ext
    intro name
    rw [← SortedMap.mem_iff_mem_keys, mem_setAll hd, hm.mem_iff, h.mem_iff, or_comm]
  valued := by
    intro name hn
    by_cases hnew : name ∈ new
    · exact isSome_assigned_setAll m h.distinct hd hnew
    · rw [assigned_setAll_of_not_mem hnew]
      exact hm.valued name (((h.mem_iff name).1 hn).resolve_right hnew)

/-- Every model of a list with every choice of values for the new symbols. -/
def completions (new : List String) (ms : List Model) : List Model :=
  (ms ×ˢ countUp new.length).map fun (m, digits) => setAll m new digits

theorem length_completions (new : List String) (ms : List Model) :
    (completions new ms).length = 2 ^ new.length * ms.length := by
  rw [completions, List.length_map, List.length_product, length_countUp, Nat.mul_comm]

theorem mem_completions_iff_exists : n ∈ completions new ms ↔
    ∃ m ∈ ms, ∃ digits : List Bool, digits.length = new.length ∧ setAll m new digits = n := by
  rw [completions, List.mem_map]
  constructor
  · rintro ⟨⟨m, digits⟩, hp, rfl⟩
    obtain ⟨hm, hd⟩ := List.pair_mem_product.1 hp
    exact ⟨m, hm, digits, mem_countUp.1 hd, rfl⟩
  · rintro ⟨m, hm, digits, hd, rfl⟩
    exact ⟨(m, digits), List.pair_mem_product.2 ⟨hm, mem_countUp.2 hd⟩, rfl⟩

/-- The completions are the total models that have the old values of a model in the list. -/
theorem mem_completions (h : Adds names new names') (total : ∀ m ∈ ms, m.TotalOn names) :
    n ∈ completions new ms ↔ n.TotalOn names' ∧
      ∃ m ∈ ms, ∀ name ∈ names, m.valuation name = n.valuation name := by
  rw [mem_completions_iff_exists]
  constructor
  · rintro ⟨m, hm, digits, hd, rfl⟩
    exact ⟨h.totalOn_setAll (total m hm) hd, m, hm, fun name hn => (h.valuation_setAll hn).symm⟩
  · rintro ⟨hn, m, hm, old⟩
    have hd : (new.map n.valuation).length = new.length := List.length_map _
    refine ⟨m, hm, new.map n.valuation, hd,
      (h.totalOn_setAll (total m hm) hd).ext hn fun name member => ?_⟩
    rcases (h.mem_iff name).1 member with member | member
    · rw [h.valuation_setAll member, old name member]
    · exact List.map_inj_left.1 (map_valuation_setAll m h.distinct hd) name member

theorem nodup_completions (h : Adds names new names') (total : ∀ m ∈ ms, m.TotalOn names)
    (distinct : ms.Nodup) : (completions new ms).Nodup := by
  refine List.Nodup.map_on ?_ (distinct.product (nodup_countUp new.length))
  rintro ⟨m, digits⟩ hp ⟨n, other⟩ hq eq
  obtain ⟨hm, hd⟩ := List.pair_mem_product.1 hp
  obtain ⟨hn, ho⟩ := List.pair_mem_product.1 hq
  have same : setAll m new digits = setAll n new other := eq
  have models : m = n := by
    refine (total m hm).ext (total n hn) fun name member => ?_
    rw [← h.valuation_setAll member, same, h.valuation_setAll member]
  have choices : digits = other := by
    rw [← map_valuation_setAll m h.distinct (mem_countUp.1 hd), same,
      map_valuation_setAll n h.distinct (mem_countUp.1 ho)]
  rw [models, choices]

/-- A property that does not hang on the new symbols has a model for each of its old ones and each
choice of values. -/
theorem length_eq_two_pow_mul {p : Model → Prop} (h : Adds names new names')
    (local' : ∀ m n, m.TotalOn names → n.TotalOn names' →
      (∀ name ∈ names, m.valuation name = n.valuation name) → (p m ↔ p n))
    (distinct : ms.Nodup) (mem : ∀ m, m ∈ ms ↔ m.TotalOn names ∧ p m)
    (distinct' : ms'.Nodup) (mem' : ∀ n, n ∈ ms' ↔ n.TotalOn names' ∧ p n) :
    ms'.length = 2 ^ new.length * ms.length := by
  have total : ∀ m ∈ ms, m.TotalOn names := fun m hm => ((mem m).1 hm).1
  have same : ms'.Perm (completions new ms) := by
    refine (List.perm_ext_iff_of_nodup distinct' (nodup_completions h total distinct)).2 fun n => ?_
    rw [mem' n, mem_completions h total]
    refine and_congr_right fun hn => ⟨fun hp => ?_, ?_⟩
    · -- The model that is completed has the same values on the old symbols.
      have old := Model.totalOn_ofValuation names n.valuation
      have values : ∀ name ∈ names,
          (Model.ofValuation names n.valuation).valuation name = n.valuation name :=
        fun name member => Model.valuation_ofValuation member
      exact ⟨_, (mem _).2 ⟨old, (local' _ n old hn values).2 hp⟩, values⟩
    · rintro ⟨m, hm, old⟩
      exact (local' m n (total m hm) hn old).1 ((mem m).1 hm).2
  rw [same.length_eq, length_completions]

end Entailment.TruthTable
