import Entailment.Proofs.Clausal.Distribution
import Entailment.Sentence.Clausal

/-!
# The clauses of a sentence mean the sentence

A sentence is true exactly when all parts at its conjunctions are, and such a part exactly when one
of its parts at disjunctions is. In a clausal sentence the latter are atoms, so taking it apart
gives clauses that are all true exactly when the sentence is (`satisfies_flatten`). With the passes
before it this makes clauses and sentence agree on every model of the symbols
(`evaluate_iff_evaluate_clauses`).
-/

namespace Entailment.Sentence

variable {v : Valuation}

/-! ## Taking a sentence apart -/

theorem forall_partsAt_conjunction (s : Sentence) :
    (∀ p ∈ s.partsAt .conjunction, p.value v = true) ↔ s.value v = true := by
  induction s with
  | atomic a => simp [partsAt]
  | negation operand ih => simp [partsAt]
  | binary c left right ihl ihr =>
    by_cases hc : c = .conjunction
    · subst hc
      simp only [partsAt, if_true, List.forall_mem_append, ihl, ihr, value, Connective.apply,
        Bool.and_eq_true]
    · simp [partsAt, hc]

theorem exists_partsAt_disjunction (s : Sentence) :
    (∃ p ∈ s.partsAt .disjunction, p.value v = true) ↔ s.value v = true := by
  induction s with
  | atomic a => simp [partsAt]
  | negation operand ih => simp [partsAt]
  | binary c left right ihl ihr =>
    by_cases hc : c = .disjunction
    · subst hc
      simp only [partsAt, if_true, List.mem_append, or_and_right, exists_or, ihl, ihr, value,
        Connective.apply, Bool.or_eq_true]
    · simp [partsAt, hc]

theorem symbols_partsAt {c : Connective} {s p : Sentence} (h : p ∈ s.partsAt c) {name : String}
    (hn : name ∈ p.symbolOccurrences) : name ∈ s.symbolOccurrences := by
  induction s with
  | atomic a | negation operand ih =>
    rw [partsAt, List.mem_singleton] at h
    · rwa [← h]
    · simp
  | binary d left right ihl ihr =>
    simp only [partsAt] at h
    split at h
    · rw [symbolOccurrences, List.mem_append]
      exact (List.mem_append.1 h).imp ihl ihr
    · rwa [← List.mem_singleton.1 h]

theorem isDisjunctionOfAtoms_of_mem_partsAt {s p : Sentence} (hs : s.isClausal = true)
    (h : p ∈ s.partsAt .conjunction) : p.isDisjunctionOfAtoms = true := by
  induction s with
  | atomic a =>
    obtain rfl : p = atomic a := by simpa [partsAt] using h
    rfl
  | negation operand ih => simp [isClausal, isDisjunctionOfAtoms] at hs
  | binary c left right ihl ihr =>
    by_cases hc : c = .conjunction
    · subst hc
      simp only [isClausal, Bool.and_eq_true] at hs
      simp only [partsAt, if_true] at h
      rcases List.mem_append.1 h with h | h
      · exact ihl hs.1 h
      · exact ihr hs.2 h
    · simp only [partsAt, if_neg hc, List.mem_singleton] at h
      subst h
      cases c with
      | conjunction => exact absurd rfl hc
      | disjunction | implication | biconditional => exact hs

theorem exists_atom_of_mem_partsAt {s p : Sentence} (hs : s.isDisjunctionOfAtoms = true)
    (h : p ∈ s.partsAt .disjunction) : ∃ a, p = atomic a := by
  induction s with
  | atomic a => exact ⟨a, by simpa [partsAt] using h⟩
  | negation operand ih => simp [isDisjunctionOfAtoms] at hs
  | binary c left right ihl ihr =>
    cases c with
    | disjunction =>
      simp only [isDisjunctionOfAtoms, Bool.and_eq_true] at hs
      simp only [partsAt, if_true] at h
      rcases List.mem_append.1 h with h | h
      · exact ihl hs.1 h
      · exact ihr hs.2 h
    | conjunction | implication | biconditional => simp [isDisjunctionOfAtoms] at hs

/-! ## Clauses -/

theorem mem_literals_of_clauseOf? {ds : List Sentence} {c : Clause} (h : clauseOf? ds = some c)
    {l : Literal} : l ∈ c.literals ↔ literal l ∈ ds := by
  unfold clauseOf? at h
  split at h
  · cases h
  · cases h
    rw [Clause.mem_ofList, List.mem_filterMap]
    constructor
    · intro h
      obtain ⟨d, hd, hl⟩ := h
      unfold asLiteral at hl
      split at hl
      · cases hl
        exact hd
      · cases hl
    · intro h
      exact ⟨literal l, h, rfl⟩

/-- A disjunction of atoms is true if it gives no clause, and else as its clause is. -/
theorem satisfies_clauseOf? {ds : List Sentence} (h : ∀ d ∈ ds, ∃ a, d = atomic a) :
    (∀ c, clauseOf? ds = some c → c.value v = true) ↔ ∃ d ∈ ds, d.value v = true := by
  cases hc : clauseOf? ds with
  | none =>
    have ht : constant true ∈ ds := by
      unfold clauseOf? at hc
      split at hc
      · assumption
      · cases hc
    simp only [reduceCtorEq, false_implies, implies_true, true_iff]
    exact ⟨_, ht, rfl⟩
  | some c =>
    simp only [Option.some.injEq, forall_eq', Clause.value_eq_true_iff]
    constructor
    · intro hl
      obtain ⟨l, hl, hv⟩ := hl
      exact ⟨_, (mem_literals_of_clauseOf? hc).1 hl, hv⟩
    · intro hd
      obtain ⟨d, hd, hv⟩ := hd
      obtain ⟨a, rfl⟩ := h d hd
      cases a with
      | literal l => exact ⟨l, (mem_literals_of_clauseOf? hc).2 hd, hv⟩
      | constant b =>
        -- The constant can only be `True`, and then there is no clause.
        obtain rfl : b = true := hv
        simp [clauseOf?, hd] at hc

theorem satisfies_flatten {s : Sentence} (h : s.isClausal = true) :
    Satisfies v s.flatten ↔ s.value v = true := by
  rw [← forall_partsAt_conjunction]
  have hp : ∀ p ∈ s.partsAt .conjunction,
      ((∀ c, clauseOf? (p.partsAt .disjunction) = some c → c.value v = true) ↔
        p.value v = true) := by
    intro p hp
    have hd := isDisjunctionOfAtoms_of_mem_partsAt h hp
    rw [satisfies_clauseOf? fun d => exists_atom_of_mem_partsAt hd, exists_partsAt_disjunction]
  constructor
  · intro hs p hmem
    refine (hp p hmem).1 fun c hc => hs c ?_
    exact List.mem_filterMap.2 ⟨p, hmem, hc⟩
  · intro hs c hc
    obtain ⟨p, hmem, hpc⟩ := List.mem_filterMap.1 hc
    exact (hp p hmem).2 (hs p hmem) c hpc

theorem symbols_flatten {s : Sentence} {c : Clause} (h : c ∈ s.flatten) {name : String}
    (hn : name ∈ c.symbols) : name ∈ s.symbolOccurrences := by
  obtain ⟨p, hp, hc⟩ := List.mem_filterMap.1 h
  obtain ⟨l, hl, rfl⟩ := List.mem_map.1 hn
  have hd := (mem_literals_of_clauseOf? hc).1 hl
  exact symbols_partsAt hp (symbols_partsAt hd (by simp [symbolOccurrences, Atom.symbols]))

/-! ## All passes -/

theorem equivalent_clausalForm (s : Sentence) : Equivalent s.clausalForm s :=
  (equivalent_distribute _).trans (rulesWithin_equivalent.absorbed s)

theorem isClausal_clausalForm (s : Sentence) : s.clausalForm.isClausal = true :=
  isClausal_distribute (isJunctive_absorbed s)

theorem satisfies_clauses {s : Sentence} : Satisfies v s.clauses ↔ s.value v = true := by
  rw [clauses, satisfies_flatten s.isClausal_clausalForm, s.equivalent_clausalForm.value]

theorem symbols_clauses {s : Sentence} {c : Clause} (h : c ∈ s.clauses) {name : String}
    (hn : name ∈ c.symbols) : name ∈ s.symbolOccurrences :=
  (s.equivalent_clausalForm.symbols name).1 (symbols_flatten h hn)

/-- On a model that gives every symbol of a sentence a value, the sentence is true exactly when all
its clauses are and false exactly when one of them is, and no clause lacks a value, as its symbols
are symbols of the sentence. -/
theorem evaluate_iff_evaluate_clauses (s : Sentence) (m : Model)
    (h : ∀ name ∈ s.symbols, (m.assigned name).isSome = true) :
    (s.evaluate m = .ok true ↔ ∀ c ∈ s.clauses, c.evaluate m = .ok true) ∧
    (s.evaluate m = .ok false ↔ ∃ c ∈ s.clauses, c.evaluate m = .ok false) ∧
    (∀ c ∈ s.clauses, ∃ b, c.evaluate m = .ok b) ∧
    ∀ c ∈ s.clauses, ∀ name ∈ c.symbols, name ∈ s.symbols := by
  have hs : m.Values s.symbolOccurrences := fun name hn => h name (mem_symbols.2 hn)
  have hc : ∀ c ∈ s.clauses, c.evaluate m = .ok (c.value m.valuation) := by
    intro c hc
    exact Clause.evaluate_of_values fun name hn => hs name (symbols_clauses hc hn)
  have hv : (∀ c ∈ s.clauses, c.value m.valuation = true) ↔ s.value m.valuation = true :=
    satisfies_clauses
  rw [evaluate_of_values hs]
  refine ⟨?_, ?_, fun c hmem => ⟨_, hc c hmem⟩, fun c hmem name hn => ?_⟩
  · rw [Except.ok.injEq, ← hv]
    exact forall₂_congr fun c hmem => by rw [hc c hmem, Except.ok.injEq]
  · rw [Except.ok.injEq, ← Bool.not_eq_true, ← hv, Classical.not_forall]
    refine exists_congr fun c => ?_
    rw [Classical.not_imp]
    refine and_congr_right fun hmem => ?_
    rw [hc c hmem, Except.ok.injEq, Bool.not_eq_true]
  · exact mem_symbols.2 (symbols_clauses hmem hn)

theorem evaluate_clauses_biconditional :
    let s : Sentence := .binary .biconditional (.literal (.positive ⟨"a", by decide⟩))
      (.negation (.binary .conjunction (.literal (.positive ⟨"b", by decide⟩)) (.constant true)))
    let m := ((Model.unassigned ["a", "b"]).set "a" true).set "b" false
    (∀ name ∈ s.symbols, (m.assigned name).isSome = true) ∧
      s.evaluate m = .ok true ∧ ∀ c ∈ s.clauses, c.evaluate m = .ok true := by
  intro s m
  have h : ∀ name ∈ s.symbols, (m.assigned name).isSome = true := by decide
  have hs : s.evaluate m = .ok true := rfl
  exact ⟨h, hs, (evaluate_iff_evaluate_clauses s m h).1.1 hs⟩

end Entailment.Sentence
