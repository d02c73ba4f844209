import Entailment.Proofs.Clausal.Rewriting
import Entailment.Proofs.Valuation
import Entailment.Sentence.Distribution

/-!
# The passes keep the meaning

Two sentences are equivalent if they have the same symbols and the same truth value under every
valuation. Equivalent sentences have the same value on every model, also on a partial one
(`Equivalent.evaluate_iff`), and every pass gives a sentence that is equivalent to the one it gets.
So does any sequence of passes, also one that follows no plan (`evaluate_rewrite`): distribution may
then end with a conjunction still below a disjunction, but it has changed nothing else.
-/

namespace Entailment.Sentence

/-- The same symbols, and the same truth value under every valuation. -/
structure Equivalent (s t : Sentence) : Prop where
  value : ∀ v, s.value v = t.value v
  symbols : ∀ name, name ∈ s.symbolOccurrences ↔ name ∈ t.symbolOccurrences

namespace Equivalent

variable {s t u : Sentence}

theorem refl (s : Sentence) : Equivalent s s := ⟨fun _ => rfl, fun _ => Iff.rfl⟩

theorem trans (h : Equivalent s t) (h' : Equivalent t u) : Equivalent s u :=
  ⟨fun v => (h.value v).trans (h'.value v), fun n => (h.symbols n).trans (h'.symbols n)⟩

theorem negation (h : Equivalent s t) : Equivalent (negation s) (negation t) where
  value := by
    intro v
    rw [Sentence.value, Sentence.value, h.value v]
  symbols := h.symbols

theorem binary {s' t' : Sentence} (c : Connective) (h : Equivalent s t)
    (h' : Equivalent s' t') : Equivalent (binary c s s') (binary c t t') where
  value := by
    intro v
    rw [Sentence.value, Sentence.value, h.value v, h'.value v]
  symbols := by
    intro n
    simp only [symbolOccurrences, List.mem_append, h.symbols n, h'.symbols n]

/-- Equivalent sentences have the same value on every model, complete or partial. -/
theorem evaluate_iff (h : Equivalent s t) (m : Model) (b : Bool) :
    s.evaluate m = .ok b ↔ t.evaluate m = .ok b := by
  rw [evaluate_eq_ok_iff, evaluate_eq_ok_iff, h.value]
  have hv : m.Values s.symbolOccurrences ↔ m.Values t.symbolOccurrences :=
    forall_congr' fun n => by rw [h.symbols n]
  rw [hv]

theorem symbols_eq (h : Equivalent s t) : s.symbols = t.symbols := by
  apply SortedSet.ext
  intro n
  rw [mem_symbols, mem_symbols, h.symbols n]

end Equivalent

/-! ## The rules -/

theorem equivalent_biconditional (a b : Sentence) :
    Equivalent (binary .conjunction (binary .implication a b) (binary .implication b a))
      (binary .biconditional a b) where
  value := by
    intro v
    cases ha : a.value v <;> cases hb : b.value v <;> simp [value, Connective.apply, ha, hb]
  symbols := by
    intro n
    simp only [symbolOccurrences, List.mem_append]
    constructor
    · intro h
      rcases h with h | h | h
      · exact h
      · exact .inr h
      · exact .inl h
    · exact .inl

theorem equivalent_implication (a b : Sentence) :
    Equivalent (binary .disjunction (negation a) b) (binary .implication a b) :=
  ⟨fun _ => rfl, fun _ => Iff.rfl⟩

theorem equivalent_negation_negation (a : Sentence) : Equivalent a (negation (negation a)) where
  value := by
    intro v
    simp [value]
  symbols := fun _ => Iff.rfl

theorem equivalent_dual {c d : Connective} (h : c.dual? = some d) (a b : Sentence) :
    Equivalent (binary d (negation a) (negation b)) (negation (binary c a b)) where
  value := by
    intro v
    cases c <;> cases h <;> simp [value, Connective.apply]
  symbols := fun _ => Iff.rfl

theorem equivalent_distribute_left (a b d : Sentence) :
    Equivalent (binary .conjunction (binary .disjunction a d) (binary .disjunction b d))
      (binary .disjunction (binary .conjunction a b) d) where
  value := by
    intro v
    exact (Bool.or_and_distrib_right _ _ _).symm
  symbols := by
    intro n
    simp only [symbolOccurrences, List.mem_append]
    constructor
    · intro h
      rcases h with (h | h) | h | h
      · exact .inl (.inl h)
      · exact .inr h
      · exact .inl (.inr h)
      · exact .inr h
    · intro h
      rcases h with (h | h) | h
      · exact .inl (.inl h)
      · exact .inr (.inl h)
      · exact .inl (.inr h)

theorem equivalent_distribute_right (d a b : Sentence) :
    Equivalent (binary .conjunction (binary .disjunction d a) (binary .disjunction d b))
      (binary .disjunction d (binary .conjunction a b)) where
  value := by
    intro v
    exact (Bool.or_and_distrib_left _ _ _).symm
  symbols := by
    intro n
    simp only [symbolOccurrences, List.mem_append]
    constructor
    · intro h
      rcases h with (h | h) | h | h
      · exact .inl h
      · exact .inr (.inl h)
      · exact .inl h
      · exact .inr (.inr h)
    · intro h
      rcases h with h | h | h
      · exact .inl (.inl h)
      · exact .inl (.inr h)
      · exact .inr (.inr h)

theorem equivalent_negated_atom (a : Atom) :
    Equivalent (atomic a.negate) (negation (atomic a)) where
  value := fun v => a.value_negate v
  symbols := by
    intro n
    cases a <;> exact Iff.rfl

/-! ## The passes -/

theorem rulesWithin_equivalent : RulesWithin Equivalent where
  refl := .refl
  trans := .trans
  negation := .negation
  binary := fun c _ _ _ _ => .binary c
  ofBiconditional := equivalent_biconditional
  ofImplication := equivalent_implication
  ofDoubleNegation := equivalent_negation_negation
  ofDual := equivalent_dual
  ofNegatedAtom := equivalent_negated_atom

theorem equivalent_disjoin (a b : Sentence) :
    Equivalent (disjoin a b) (binary .disjunction a b) := by
  fun_cases disjoin a b with
  | case1 => exact equivalent_distribute_left _ _ _
  | case2 => exact equivalent_distribute_right _ _ _
  | case3 => exact .refl _

theorem equivalent_distributeOnce (s : Sentence) : Equivalent s.distributeOnce s := by
  fun_induction distributeOnce s with
  | case1 a => exact .refl _
  | case2 operand ih => exact ih.negation
  | case3 left right ihl ihr => exact (equivalent_disjoin _ _).trans (ihl.binary _ ihr)
  | case4 c left right _ ihl ihr => exact ihl.binary c ihr

theorem equivalent_distribute (s : Sentence) : Equivalent s.distribute s := by
  fun_induction distribute s with
  | case1 | case3 => exact .refl _
  | case2 s _ _ _ ih => exact ih.trans (equivalent_distributeOnce s)

/-! ## Passes in any order -/

/-- The passes of rewriting. -/
inductive Pass
  | expandBiconditionals
  | expandImplications
  | cancelNegations
  | deMorgan
  | pushNegations
  | absorbNegations
  | distributeOnce
  | distribute

/-- What a pass makes of a sentence. -/
def Pass.run : Pass → Sentence → Sentence
  | expandBiconditionals => Sentence.expandBiconditionals
  | expandImplications => Sentence.expandImplications
  | cancelNegations => Sentence.cancelNegations
  | deMorgan => Sentence.deMorgan false
  | pushNegations => Sentence.pushNegations
  | absorbNegations => Sentence.absorbNegations
  | distributeOnce => Sentence.distributeOnce
  | distribute => Sentence.distribute

/-- Rewrites a sentence by one pass after the other. -/
def rewrite (s : Sentence) (passes : List Pass) : Sentence :=
  passes.foldl (fun s pass => pass.run s) s

theorem equivalent_run (pass : Pass) (s : Sentence) : Equivalent (pass.run s) s := by
  cases pass with
  | expandBiconditionals => exact rulesWithin_equivalent.expandBiconditionals s
  | expandImplications => exact rulesWithin_equivalent.expandImplications s
  | cancelNegations => exact rulesWithin_equivalent.cancelNegations s
  | deMorgan => exact rulesWithin_equivalent.deMorgan false s
  | pushNegations => exact rulesWithin_equivalent.pushNegations s
  | absorbNegations => exact rulesWithin_equivalent.absorbNegations s
  | distributeOnce => exact equivalent_distributeOnce s
  | distribute => exact equivalent_distribute s

theorem equivalent_rewrite (s : Sentence) (passes : List Pass) :
    Equivalent (s.rewrite passes) s := by
  induction passes generalizing s with
  | nil => exact .refl s
  | cons pass passes ih => exact (ih (pass.run s)).trans (equivalent_run pass s)

/-- However the passes follow each other, the sentence keeps its value on every model, complete or
partial, has none where it had none, and keeps its symbols. -/
theorem evaluate_rewrite (s : Sentence) (passes : List Pass) (m : Model) :
    (∀ b, (s.rewrite passes).evaluate m = .ok b ↔ s.evaluate m = .ok b) ∧
    ((∃ e, (s.rewrite passes).evaluate m = .error e) ↔ ∃ e, s.evaluate m = .error e) ∧
    (s.rewrite passes).symbols = s.symbols := by
  have h := equivalent_rewrite s passes
  refine ⟨h.evaluate_iff m, ?_, h.symbols_eq⟩
  rw [exists_error_iff, exists_error_iff]
  exact not_congr (exists_congr (h.evaluate_iff m))

-- Which symbol is reported as the one without a value may change all the same.
example :
    let a := literal (.positive ⟨"a", by decide⟩)
    let b := literal (.positive ⟨"b", by decide⟩)
    let c := literal (.positive ⟨"c", by decide⟩)
    let s := binary .disjunction (binary .conjunction b c) a
    let m := (Model.unassigned ["a", "b", "c"]).set "b" true
    s.evaluate m = .error (.unassigned "c") ∧
      (s.rewrite [.distributeOnce]).evaluate m = .error (.unassigned "a") :=
  ⟨rfl, rfl⟩

end Entailment.Sentence
