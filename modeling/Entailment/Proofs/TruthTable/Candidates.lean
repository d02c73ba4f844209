import Entailment.Proofs.KnowledgeBase.Telling
import Entailment.Proofs.TotalModels
import Entailment.Proofs.TruthTable.Counting
import Entailment.TruthTable.Basic

/-!
# The models that are tried

The models tried are those that are total on the symbols and keep the known values
(`mem_candidates_iff`). They are tried in ascending order (`pairwise_candidates`), since the known
symbols have the same values on all of them, wherever they stand among the others.

A model on which every sentence is true keeps the known values, as these are those of facts
(`keeps_of_forall_evaluate`).
-/

namespace Entailment

variable {kb : KnowledgeBase} {query : Sentence} {m : Model} {name : String}

namespace TruthTable

/-! ## Setting several symbols -/

section
variable {symbols : List String} {values : List Bool}

theorem setAll_cons (m : Model) (symbol : String) (value : Bool) :
    setAll m (symbol :: symbols) (value :: values) = setAll (m.set symbol value) symbols values :=
  rfl

theorem mem_setAll (same : values.length = symbols.length) :
    name ∈ setAll m symbols values ↔ name ∈ symbols ∨ name ∈ m := by
  induction symbols generalizing m values with
  | nil => simp [setAll]
  | cons symbol symbols ih =>
    cases values with
    | nil => cases same
    | cons value values =>
      rw [setAll_cons, ih (Nat.succ.inj same), Model.set, SortedMap.mem_insert, List.mem_cons,
        or_assoc, or_left_comm]

theorem assigned_setAll_of_not_mem (h : name ∉ symbols) :
    (setAll m symbols values).assigned name = m.assigned name := by
  induction symbols generalizing m values with
  | nil => rfl
  | cons symbol symbols ih =>
    cases values with
    | nil => rfl
    | cons value values =>
      obtain ⟨ne, rest⟩ := not_or.1 (mt List.mem_cons.2 h)
      rw [setAll_cons, ih rest, Model.assigned_set, if_neg ne]

theorem map_assigned_setAll (m : Model) (distinct : symbols.Nodup)
    (same : values.length = symbols.length) :
    symbols.map (setAll m symbols values).assigned = values.map some := by
  induction symbols generalizing m values with
  | nil =>
    rw [List.length_eq_zero_iff.1 same]
    rfl
  | cons symbol symbols ih =>
    cases values with
    | nil => cases same
    | cons value values =>
      obtain ⟨fresh, distinct⟩ := List.nodup_cons.1 distinct
      rw [setAll_cons, List.map_cons, ih _ distinct (Nat.succ.inj same),
        assigned_setAll_of_not_mem fresh, Model.assigned_set, if_pos rfl, List.map_cons]

theorem isSome_assigned_setAll (m : Model) (distinct : symbols.Nodup)
    (same : values.length = symbols.length) (h : name ∈ symbols) :
    ((setAll m symbols values).assigned name).isSome = true := by
  have member := List.mem_map_of_mem (f := (setAll m symbols values).assigned) h
  rw [map_assigned_setAll m distinct same] at member
  obtain ⟨value, -, hv⟩ := List.mem_map.1 member
  rw [← hv, Option.isSome_some]

theorem map_valuation_setAll (m : Model) (distinct : symbols.Nodup)
    (same : values.length = symbols.length) :
    symbols.map (setAll m symbols values).valuation = values := by
  have set := congrArg (List.map (Option.getD · false)) (map_assigned_setAll m distinct same)
  rw [List.map_map, List.map_map] at set
  exact set.trans (List.map_id _)

end

/-! ## Known values -/

/-- The model has the known values. -/
def Keeps (kb : KnowledgeBase) (m : Model) : Prop :=
  ∀ name b, (knownValues kb).get? name = some b → m.assigned name = some b

/-- A value after reading literals was there before or is that of one of them. -/
theorem known_or_exists_of_get?_foldl {b : Bool} {ls : List Literal} {known : SortedMap String Bool}
    (h : (ls.foldl (fun known l => if l.name ∈ known then known
      else known.insert l.name l.polarity) known).get? name = some b) :
    known.get? name = some b ∨ ∃ l ∈ ls, l.name = name ∧ l.polarity = b := by
  induction ls generalizing known with
  | nil => exact .inl h
  | cons l ls ih =>
    rcases ih h with hk | ⟨l', hl, hv⟩
    · dsimp only at hk
      split at hk
      · exact .inl hk
      · rw [SortedMap.get?_insert] at hk
        split at hk
        · next hn => exact .inr ⟨l, List.mem_cons_self, hn.symm, Option.some.inj hk⟩
        · exact .inl hk
    · exact .inr ⟨l', List.mem_cons_of_mem _ hl, hv⟩

/-- A known value is that of a fact. -/
theorem exists_fact_of_known {b : Bool} (h : (knownValues kb).get? name = some b) :
    ∃ l, Sentence.literal l ∈ kb.sentences ∧ l.name = name ∧ l.polarity = b := by
  rcases known_or_exists_of_get?_foldl h with hk | ⟨l, hl, hv⟩
  · rw [SortedMap.get?_empty] at hk
    cases hk
  · obtain ⟨s, hs, hl⟩ := List.mem_filterMap.1 hl
    unfold Sentence.asLiteral at hl
    split at hl
    · cases hl
      exact ⟨l, hs, hv⟩
    · cases hl

/-- On a model that gives a known symbol the other value, the fact about it is false. -/
theorem keeps_of_forall_evaluate (h : ∀ s ∈ kb.sentences, s.evaluate m = .ok true) :
    Keeps kb m := by
  intro name b hk
  obtain ⟨l, hl, rfl, rfl⟩ := exists_fact_of_known hk
  obtain ⟨hv, ht⟩ := Literal.evaluate_eq_ok_iff.1 (h _ hl)
  obtain ⟨value, ha⟩ := Option.isSome_iff_exists.1 hv
  rw [ha, ← Literal.value_eq_true_iff.1 ht, Model.valuation_of_assigned ha]

theorem mem_allSymbols_of_known (h : kb.Coherent) (hk : name ∈ knownValues kb) :
    name ∈ allSymbols kb query := by
  obtain ⟨b, hb⟩ := SortedMap.mem_iff_get?.1 hk
  obtain ⟨l, hl, rfl, -⟩ := exists_fact_of_known hb
  have occurs : l.name ∈ (Sentence.literal l).symbolOccurrences := List.mem_singleton_self _
  exact SortedSet.mem_union.2 (.inl (SortedMap.mem_iff_mem_keys.1 (h.known _ hl _ occurs)))

theorem mem_unknownSymbols :
    name ∈ unknownSymbols kb query ↔ name ∈ allSymbols kb query ∧ name ∉ knownValues kb := by
  simp [unknownSymbols, SortedSet.mem_toList]

theorem nodup_unknownSymbols (kb : KnowledgeBase) (query : Sentence) :
    (unknownSymbols kb query).Nodup :=
  (allSymbols kb query).nodup_toList.filter _

/-! ## Candidates -/

theorem knownModel_eq_setAll : knownModel kb query =
    setAll (.unassigned (allSymbols kb query).toList) ((knownValues kb).entries.map Prod.fst)
      ((knownValues kb).entries.map Prod.snd) := by
  rw [knownModel, setAll, ← List.zip_of_prod rfl rfl]

theorem length_map_entries (known : SortedMap String Bool) :
    (known.entries.map Prod.snd).length = (known.entries.map Prod.fst).length := by
  rw [List.length_map, List.length_map]

theorem keeps_knownModel (kb : KnowledgeBase) (query : Sentence) :
    Keeps kb (knownModel kb query) := by
  intro name b hk
  have set := map_assigned_setAll (.unassigned (allSymbols kb query).toList)
    (knownValues kb).ascending.nodup (length_map_entries (knownValues kb))
  rw [← knownModel_eq_setAll, List.map_map, List.map_map, List.map_inj_left] at set
  exact set (name, b) (SortedMap.get?_eq_some_iff.1 hk)

theorem mem_knownModel :
    name ∈ knownModel kb query ↔ name ∈ knownValues kb ∨ name ∈ allSymbols kb query := by
  rw [knownModel_eq_setAll, mem_setAll (length_map_entries _), Model.mem_unassigned]
  exact Iff.rfl

section
variable {digits other : List Bool}

/-- The model that is tried when the given digits are counted. -/
def candidate (kb : KnowledgeBase) (query : Sentence) (digits : List Bool) : Model :=
  setAll (knownModel kb query) (unknownSymbols kb query) digits

theorem keeps_candidate (digits : List Bool) : Keeps kb (candidate kb query digits) := by
  intro name b hk
  have known : name ∉ unknownSymbols kb query := by
    intro hn
    exact (mem_unknownSymbols.1 hn).2 (SortedMap.mem_iff_get?.2 ⟨b, hk⟩)
  rw [candidate, assigned_setAll_of_not_mem known]
  exact keeps_knownModel kb query name b hk

theorem totalOn_candidate (h : kb.Coherent)
    (hd : digits.length = (unknownSymbols kb query).length) :
    (candidate kb query digits).TotalOn (allSymbols kb query) where
  keys := by
    apply SortedSet.ext
    intro name
    rw [← SortedMap.mem_iff_mem_keys, candidate, mem_setAll hd, mem_knownModel, mem_unknownSymbols]
    constructor
    · rintro (hn | hn | hn)
      · exact hn.1
      · exact mem_allSymbols_of_known h hn
      · exact hn
    · intro hn
      exact .inr (.inr hn)
  valued := by
    intro name hn
    by_cases known : name ∈ knownValues kb
    · obtain ⟨b, hb⟩ := SortedMap.mem_iff_get?.1 known
      rw [keeps_candidate digits name b hb]
      rfl
    · -- The symbol is one of those that are given the digits.
      exact isSome_assigned_setAll _ (nodup_unknownSymbols kb query) hd
        (mem_unknownSymbols.2 ⟨hn, known⟩)

theorem map_valuation_candidate (hd : digits.length = (unknownSymbols kb query).length) :
    (unknownSymbols kb query).map (candidate kb query digits).valuation = digits :=
  map_valuation_setAll _ (nodup_unknownSymbols kb query) hd

/-- The models tried are the total ones that keep the known values. -/
theorem mem_candidates_iff (h : kb.Coherent) :
    m ∈ candidates kb query ↔ m.TotalOn (allSymbols kb query) ∧ Keeps kb m := by
  show m ∈ (countUp (unknownSymbols kb query).length).map (candidate kb query) ↔ _
  rw [List.mem_map]
  constructor
  · intro hm
    obtain ⟨digits, hd, rfl⟩ := hm
    exact ⟨totalOn_candidate h (mem_countUp.1 hd), keeps_candidate digits⟩
  · intro hm
    obtain ⟨total, keeps⟩ := hm
    have hd : ((unknownSymbols kb query).map m.valuation).length =
        (unknownSymbols kb query).length := List.length_map _
    refine ⟨_, mem_countUp.2 hd, (totalOn_candidate h hd).ext total fun name hn => ?_⟩
    by_cases known : name ∈ knownValues kb
    · obtain ⟨b, hb⟩ := SortedMap.mem_iff_get?.1 known
      rw [Model.valuation_of_assigned (keeps name b hb),
        Model.valuation_of_assigned (keeps_candidate _ name b hb)]
    · exact List.map_inj_left.1 (map_valuation_candidate hd) name
        (mem_unknownSymbols.2 ⟨hn, known⟩)

/-- The models are tried in ascending order. -/
theorem pairwise_candidates (h : kb.Coherent) (query : Sentence) :
    (candidates kb query).Pairwise fun m n => compare m n = .lt := by
  refine List.pairwise_map.2 ((pairwise_countUp _).imp_of_mem fun {d e} hd he lt => ?_)
  have hd := mem_countUp.1 hd
  have he := mem_countUp.1 he
  have same : ∀ name ∈ allSymbols kb query, decide (name ∉ knownValues kb) = false →
      (candidate kb query d).valuation name = (candidate kb query e).valuation name := by
    intro name _ known
    obtain ⟨b, hb⟩ := SortedMap.mem_iff_get?.1 (Classical.not_not.1 (of_decide_eq_false known))
    rw [Model.valuation_of_assigned (keeps_candidate d name b hb),
      Model.valuation_of_assigned (keeps_candidate e name b hb)]
  have order := (totalOn_candidate h hd).compare_eq (totalOn_candidate h he) same
  show compare (candidate kb query d) (candidate kb query e) = .lt
  rw [order]
  show List.compareLex compare ((unknownSymbols kb query).map _)
    ((unknownSymbols kb query).map _) = .lt
  rw [map_valuation_candidate hd, map_valuation_candidate he, lt]

end

end TruthTable

end Entailment
