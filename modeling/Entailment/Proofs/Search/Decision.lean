import Entailment.Dpll.Search
import Entailment.Proofs.Search.Branch

/-!
# What a search decides

The branches of the stack admit, between them, a valuation as long as the clauses have one, and
nothing that the first branch does not admit. So the search finds a model exactly when the clauses
have one (`satisfiable_search_iff`), and the model it finds leaves a symbol without a value only if
either value will do (`satisfies_of_search`).
-/

namespace Entailment

variable {v : Valuation}

namespace Branch

variable {b b' : Branch} {l : Literal} {stack : List Branch} {m : Model}

theorem not_admits_of_hasEmptyClause (h : b.hasEmptyClause = true) : ¬ b.Admits v := by
  intro hv
  obtain ⟨c, hc, hl⟩ := hasEmptyClause_iff.1 h
  simpa [Clause.value, hl] using hv.2 c hc

theorem clauses_ne_nil_of_hasEmptyClause (h : b.hasEmptyClause = true) : b.clauses ≠ [] := by
  obtain ⟨c, hc, -⟩ := hasEmptyClause_iff.1 h
  exact List.ne_nil_of_mem hc

theorem clauses_ne_nil_of_choice? (h : b.choice? = some l) : b.clauses ≠ [] := by
  intro hn
  rcases occurs_of_choice? h with ho | ho <;> simp [occurringLiterals, hn] at ho

/-- A branch that is neither satisfied nor failed has a symbol to branch on. -/
theorem exists_choice? (hn : b.clauses ≠ []) (he : b.hasEmptyClause = false) :
    ∃ l, b.choice? = some l := by
  obtain ⟨c, hc⟩ := List.exists_mem_of_ne_nil _ hn
  have hl : c.literals ≠ [] := by
    intro hl
    rw [hasEmptyClause_iff.2 ⟨c, hc, hl⟩] at he
    cases he
  obtain ⟨k, hk⟩ := List.exists_mem_of_ne_nil _ hl
  have hocc : k ∈ (SortedSet.ofList (occurringLiterals b.clauses)).toList :=
    SortedSet.mem_toList.2 (SortedSet.mem_ofList.2 (exists_mem_of_occurring.2 ⟨c, hc, hk⟩))
  rw [choice?]
  cases hs : (SortedSet.ofList (occurringLiterals b.clauses)).toList with
  | nil => simp [hs] at hocc
  | cons x xs => exact ⟨x.unsigned, rfl⟩

/-- What `explore` does with a branch that has no symbol to branch on, it never has to do. -/
theorem choice?_ne_none (hn : b.clauses.isEmpty ≠ true) (he : b.hasEmptyClause ≠ true) :
    b.choice? ≠ none := by
  obtain ⟨l, hl⟩ := exists_choice? (mt List.isEmpty_iff.2 hn) (by simpa using he)
  simp [hl]

theorem WellFormed.isOpen_choice? (h : b.WellFormed) (hc : b.choice? = some l) : b.Open l := by
  rcases occurs_of_choice? hc with hl | hl
  · exact h.isOpen hl
  · exact (h.isOpen hl).of_name_eq (Literal.name_negate l).symm

theorem Open.negate (h : b.Open l) : b.Open l.negate :=
  h.of_name_eq (Literal.name_negate l)

/-- Splitting a branch at a symbol loses no valuation. -/
theorem admits_split (h : b.Open l) (hv : b.Admits v) :
    (b.assign l).Admits v ∨ (b.assign l.negate).Admits v := by
  by_cases hl : l.value v = true
  · exact .inl ((admits_assign h.unassigned).2 ⟨hv, hl⟩)
  · exact .inr ((admits_assign h.negate.unassigned).2 ⟨hv, by simpa using hl⟩)

theorem WellFormed.split (h : b.WellFormed) (hl : b.Open l) :
    (b.assign l).simplify.WellFormed ∧ b.Reaches (b.assign l).simplify := by
  have hb := h.assign hl
  have hr := reaches_simplify hb
  exact ⟨hr.wellFormed hb, .assign hl hr⟩

/-! ## The stack -/

theorem wellFormed_split_stack (hs : ∀ d ∈ b :: stack, d.WellFormed) (hl : b.choice? = some l) :
    ∀ d ∈ (b.assign l).simplify :: (b.assign l.negate).simplify :: stack, d.WellFormed := by
  obtain ⟨hb, hrest⟩ := List.forall_mem_cons.1 hs
  have ho := hb.isOpen_choice? hl
  exact List.forall_mem_cons.2
    ⟨(hb.split ho).1, List.forall_mem_cons.2 ⟨(hb.split ho.negate).1, hrest⟩⟩

/-- A model found comes from some branch of the stack, on which all clauses are satisfied. -/
theorem reaches_of_explore (h : explore stack = some m) (hs : ∀ b ∈ stack, b.WellFormed) :
    ∃ b ∈ stack, ∃ b', b.Reaches b' ∧ b'.clauses = [] ∧ b'.model = m := by
  fun_induction explore stack with
  | case1 => cases h
  | case2 b stack hc =>
    cases h
    exact ⟨b, List.mem_cons_self, b, .refl b, List.isEmpty_iff.1 hc, rfl⟩
  | case3 b stack _ _ ih | case4 b stack _ _ _ ih =>
    obtain ⟨d, hd, hr⟩ := ih h fun d hd => hs d (List.mem_cons_of_mem _ hd)
    exact ⟨d, List.mem_cons_of_mem _ hd, hr⟩
  | case5 b stack _ _ l hl ih =>
    have hb := hs b List.mem_cons_self
    have ho := hb.isOpen_choice? hl
    obtain ⟨d, hd, b', hr, hc, hm⟩ := ih h (wellFormed_split_stack hs hl)
    -- What either half reaches, the branch that was split reaches too.
    rcases List.mem_cons.1 hd with rfl | hd
    · exact ⟨b, List.mem_cons_self, b', (hb.split ho).2.trans hr, hc, hm⟩
    rcases List.mem_cons.1 hd with rfl | hd
    · exact ⟨b, List.mem_cons_self, b', (hb.split ho.negate).2.trans hr, hc, hm⟩
    · exact ⟨d, List.mem_cons_of_mem _ hd, b', hr, hc, hm⟩

/-- A search without result leaves no branch of the stack that admits a valuation. -/
theorem not_admits_of_explore (h : explore stack = none) (hs : ∀ b ∈ stack, b.WellFormed) :
    ∀ b ∈ stack, ∀ v, ¬ b.Admits v := by
  fun_induction explore stack with
  | case1 => simp
  | case2 => cases h
  | case3 b stack _ he ih =>
    intro d hd v
    rcases List.mem_cons.1 hd with rfl | hd
    · exact not_admits_of_hasEmptyClause he
    · exact ih h (fun d hd => hs d (List.mem_cons_of_mem _ hd)) d hd v
  | case4 b stack hc he hn => exact absurd hn (choice?_ne_none hc he)
  | case5 b stack _ _ l hl ih =>
    have hb := hs b List.mem_cons_self
    have ho := hb.isOpen_choice? hl
    have hnone := ih h (wellFormed_split_stack hs hl)
    intro d hd v hv
    rcases List.mem_cons.1 hd with rfl | hd
    · rcases admits_split ho hv with ht | hf
      · obtain ⟨w, hw⟩ := exists_admits_simplify (hb.assign ho) ht
        exact hnone _ (by simp) w hw
      · obtain ⟨w, hw⟩ := exists_admits_simplify (hb.assign ho.negate) hf
        exact hnone _ (by simp) w hw
    · exact hnone d (by simp [hd]) v hv

/-! ## The first branch -/

theorem mem_root {cs : List Clause} {symbols : List String} {name : String} :
    name ∈ (root cs symbols).model ↔ name ∈ symbols ∨ ∃ c ∈ cs, name ∈ c.symbols := by
  show name ∈ Model.unassigned (symbols ++ cs.flatMap Clause.symbols) ↔ _
  rw [Model.mem_unassigned, List.mem_append, List.mem_flatMap]

theorem wellFormed_root (cs : List Clause) (symbols : List String) :
    (root cs symbols).WellFormed where
  known := by
    intro l hl
    obtain ⟨c, hc, hlc⟩ := exists_mem_of_occurring.1 hl
    exact mem_root.2 (.inr ⟨c, hc, List.mem_map_of_mem hlc⟩)
  unassigned := fun _ _ => Model.assigned_unassigned _ _

theorem admits_root {cs : List Clause} {symbols : List String} :
    (root cs symbols).Admits v ↔ Satisfies v cs :=
  and_iff_right (Model.agrees_unassigned _)

theorem wellFormed_start (cs : List Clause) (symbols : List String) :
    ∀ b ∈ [(root cs symbols).simplify], b.WellFormed := by
  intro b hb
  rw [List.mem_singleton] at hb
  subst hb
  have h := wellFormed_root cs symbols
  exact (reaches_simplify h).wellFormed h

end Branch

/-! ## The search -/

open Branch

variable {cs : List Clause} {symbols : List String} {m : Model}

theorem reaches_of_search (h : (search cs symbols).model = some m) :
    ∃ b, (root cs symbols).Reaches b ∧ b.clauses = [] ∧ b.model = m := by
  rw [model_search] at h
  obtain ⟨b, hb, b', hr, hc, hm⟩ := reaches_of_explore h (wellFormed_start cs symbols)
  rw [List.mem_singleton] at hb
  subst hb
  exact ⟨b', (reaches_simplify (wellFormed_root cs symbols)).trans hr, hc, hm⟩

/-- Every valuation that goes on from the model found satisfies the clauses. -/
theorem satisfies_of_search (h : (search cs symbols).model = some m) (hv : m.Agrees v) :
    Satisfies v cs := by
  obtain ⟨b, hr, hc, rfl⟩ := reaches_of_search h
  have hb : b.Admits v := by
    refine ⟨hv, ?_⟩
    intro c hcl
    simp [hc] at hcl
  exact admits_root.1 (hr.admits hb)

theorem mem_of_search (h : (search cs symbols).model = some m) {name : String} :
    name ∈ m ↔ name ∈ symbols ∨ ∃ c ∈ cs, name ∈ c.symbols := by
  obtain ⟨b, hr, -, rfl⟩ := reaches_of_search h
  rw [SortedMap.mem_iff_mem_keys, hr.keys, ← SortedMap.mem_iff_mem_keys, mem_root]

/-- A search finds a model exactly when some valuation satisfies the clauses. -/
theorem satisfiable_search_iff :
    (search cs symbols).satisfiable = true ↔ ∃ v, Satisfies v cs := by
  rw [satisfiable_search, Option.isSome_iff_exists]
  constructor
  · intro h
    obtain ⟨m, hm⟩ := h
    exact ⟨m.valuation, satisfies_of_search hm m.agrees_valuation⟩
  · intro h
    obtain ⟨v, hv⟩ := h
    cases hm : (search cs symbols).model with
    | some m => exact ⟨m, rfl⟩
    | none =>
      rw [model_search] at hm
      have hroot := wellFormed_root cs symbols
      obtain ⟨w, hw⟩ := exists_admits_simplify hroot (admits_root.2 hv)
      exact absurd hw (not_admits_of_explore hm (wellFormed_start cs symbols) _ (by simp) w)

/-- The symbols of the clauses and the further ones that a search is over. -/
def searchSymbols (cs : List Clause) (symbols : List String) : SortedSet String :=
  .ofList (symbols ++ cs.flatMap Clause.symbols)

theorem values_of_totalOn_searchSymbols (h : m.TotalOn (searchSymbols cs symbols)) :
    ∀ c ∈ cs, m.Values c.symbols := by
  intro c hc
  apply h.values
  intro name hn
  simp only [searchSymbols, SortedSet.mem_ofList, List.mem_append, List.mem_flatMap]
  exact .inr ⟨c, hc, hn⟩

theorem satisfies_valuation_iff (h : ∀ c ∈ cs, m.Values c.symbols) :
    Satisfies m.valuation cs ↔ ∀ c ∈ cs, c.evaluate m = .ok true := by
  constructor
  · intro hs c hc
    exact Clause.evaluate_eq_ok_iff.2 ⟨h c hc, hs c hc⟩
  · intro hs c hc
    exact (Clause.evaluate_eq_ok_iff.1 (hs c hc)).2

/-- The search is a decision procedure. It answers that the clauses are satisfiable exactly when
some total model of the symbols satisfies them, it then has a model, over just these symbols, and
however the symbols without a value are completed, all clauses are true. -/
theorem search_decides (cs : List Clause) (symbols : List String) :
    ((search cs symbols).satisfiable = true ↔
      ∃ m : Model, m.TotalOn (searchSymbols cs symbols) ∧ ∀ c ∈ cs, c.evaluate m = .ok true) ∧
    ((search cs symbols).model.isSome = true ↔ (search cs symbols).satisfiable = true) ∧
    ∀ m, (search cs symbols).model = some m →
      (∀ name, name ∈ m ↔ name ∈ symbols ∨ ∃ c ∈ cs, name ∈ c.symbols) ∧
      ∀ full : Model, full.TotalOn m.keys → full.Extends m →
        ∀ c ∈ cs, c.evaluate full = .ok true := by
  refine ⟨?_, by rw [satisfiable_search], ?_⟩
  · rw [satisfiable_search_iff]
    constructor
    · intro h
      obtain ⟨v, hv⟩ := h
      have ht := Model.totalOn_ofValuation (searchSymbols cs symbols) v
      have hm := values_of_totalOn_searchSymbols ht
      refine ⟨_, ht, (satisfies_valuation_iff hm).1 fun c hc => ?_⟩
      rw [← hv c hc]
      refine Clause.value_congr fun name hn => Model.valuation_ofValuation ?_
      simp only [searchSymbols, SortedSet.mem_ofList, List.mem_append, List.mem_flatMap]
      exact .inr ⟨c, hc, hn⟩
    · intro h
      obtain ⟨m, ht, hm⟩ := h
      exact ⟨_, (satisfies_valuation_iff (values_of_totalOn_searchSymbols ht)).2 hm⟩
  · intro m hm
    refine ⟨fun name => mem_of_search hm, fun full ht he => ?_⟩
    refine (satisfies_valuation_iff fun c hc => ht.values fun name hn => ?_).1
      (satisfies_of_search hm he.agrees)
    exact (mem_of_search hm).2 (.inr ⟨c, hc, hn⟩)

end Entailment
