import Entailment.Clause
import Entailment.Proofs.Basic
import Entailment.Sentence.Basic

/-!
# Truth under a valuation

A valuation gives every name a truth value, so truth under it is total: no symbol is ever missing.
Evaluation on a model is partial. The two meet in `Sentence.evaluate_eq_ok_iff` and
`Clause.evaluate_eq_ok_iff`: a model has an answer exactly when it gives every symbol a value, and
the answer is then the truth value under the valuation read off the model.
-/

namespace Entailment

/-- A truth value for every name. -/
abbrev Valuation := String → Bool

variable {v w : Valuation} {m : Model}

/-! ## Truth -/

namespace Literal

/-- The truth value of a literal under a valuation. -/
def value (l : Literal) (v : Valuation) : Bool :=
  v l.name != l.negated

@[simp] theorem name_negate (l : Literal) : l.negate.name = l.name := rfl

@[simp] theorem value_negate (l : Literal) (v : Valuation) :
    l.negate.value v = !l.value v := by
  show (v l.name != !l.negated) = !(v l.name != l.negated)
  cases v l.name <;> cases l.negated <;> rfl

theorem value_eq_true_iff {l : Literal} : l.value v = true ↔ v l.name = l.polarity := by
  cases hv : v l.name <;> cases hn : l.negated <;> simp [value, polarity, hv, hn]

/-- Literals on the same symbol are the same or opposite. -/
theorem eq_or_eq_negate_of_name_eq {l k : Literal} (h : l.name = k.name) :
    l = k ∨ l = k.negate := by
  have hs : l.symbol = k.symbol := Symbol.ext h
  cases hl : l.negated <;> cases hk : k.negated <;> simp [Literal.ext_iff, negate, hs, hl, hk]

end Literal

/-- The truth value of an atom under a valuation. -/
def Atom.value : Atom → Valuation → Bool
  | literal l, v => l.value v
  | constant value, _ => value

@[simp] theorem Atom.value_negate (a : Atom) (v : Valuation) :
    a.negate.value v = !a.value v := by
  cases a with
  | literal l => exact l.value_negate v
  | constant _ => rfl

namespace Sentence

/-- The truth value of a sentence under a valuation. -/
def value : Sentence → Valuation → Bool
  | atomic atom, v => atom.value v
  | negation operand, v => !operand.value v
  | binary connective left right, v => connective.apply (left.value v) (right.value v)

/-- Only the symbols of a sentence bear on its truth. -/
theorem value_congr {s : Sentence} (h : ∀ name ∈ s.symbolOccurrences, v name = w name) :
    s.value v = s.value w := by
  induction s with
  | atomic a =>
    cases a with
    | literal l =>
      have hl : v l.name = w l.name := h _ (by simp [symbolOccurrences, Atom.symbols])
      simp [value, Atom.value, Literal.value, hl]
    | constant _ => rfl
  | negation operand ih => rw [value, value, ih h]
  | binary c left right ihl ihr =>
    simp only [symbolOccurrences, List.mem_append] at h
    rw [value, value, ihl (fun n hn => h n (.inl hn)), ihr (fun n hn => h n (.inr hn))]

end Sentence

namespace Clause

/-- The truth value of a clause under a valuation. -/
def value (c : Clause) (v : Valuation) : Bool :=
  c.literals.any (·.value v)

theorem value_eq_true_iff {c : Clause} :
    c.value v = true ↔ ∃ l ∈ c.literals, l.value v = true := by
  simp [value]

/-- A clause with a literal and its complement is always true. -/
theorem value_of_isTautology {c : Clause} (h : c.isTautology = true) (v : Valuation) :
    c.value v = true := by
  obtain ⟨l, hl, hn⟩ := isTautology_iff.1 h
  rw [value_eq_true_iff]
  by_cases hv : l.value v = true
  · exact ⟨l, hl, hv⟩
  · exact ⟨l.negate, hn, by simpa using hv⟩

end Clause

/-- Every clause of the list is true. -/
def Satisfies (v : Valuation) (cs : List Clause) : Prop :=
  ∀ c ∈ cs, c.value v = true

theorem satisfies_append {cs ds : List Clause} :
    Satisfies v (cs ++ ds) ↔ Satisfies v cs ∧ Satisfies v ds := by
  constructor
  · intro h
    exact ⟨fun c hc => h c (List.mem_append_left _ hc),
      fun c hc => h c (List.mem_append_right _ hc)⟩
  · intro h c hc
    obtain ⟨hcs, hds⟩ := h
    exact (List.mem_append.1 hc).elim (hcs c) (hds c)

/-- The clauses that a filter leaves out, tautologies and repetitions, are never missed. -/
theorem satisfies_filterClauses {cs : List Clause} :
    Satisfies v (filterClauses cs) ↔ Satisfies v cs := by
  constructor
  · intro h c hc
    cases ht : c.isTautology with
    | true => exact c.value_of_isTautology ht v
    | false => exact h c (mem_filterClauses.2 ⟨hc, ht⟩)
  · intro h c hc
    exact h c (mem_filterClauses.1 hc).1

/-! ## Models as partial valuations -/

namespace Model

/-- The valuation that a model reads as, false wherever the model has no value. -/
def valuation (m : Model) : Valuation := fun name =>
  (m.assigned name).getD false

/-- Every name of the list has a value. -/
def Values (m : Model) (names : List String) : Prop :=
  ∀ name ∈ names, (m.assigned name).isSome = true

/-- The valuation goes on from the values that the model has. -/
def Agrees (m : Model) (v : Valuation) : Prop :=
  ∀ name b, m.assigned name = some b → v name = b

/-- The model has the named symbols, no others, and gives each of them a value. -/
structure TotalOn (m : Model) (names : SortedSet String) : Prop where
  keys : m.keys = names
  valued : ∀ name ∈ names, (m.assigned name).isSome = true

/-- The model keeps every value that the other one has. -/
def Extends (m n : Model) : Prop :=
  ∀ name b, n.assigned name = some b → m.assigned name = some b

/-- The total model on the named symbols that a valuation gives. -/
def ofValuation (names : SortedSet String) (v : Valuation) : Model where
  entries := names.toList.map fun name => (name, some (v name))
  ascending := List.pairwise_map.2 names.ascending

theorem valuation_of_assigned {name : String} {b : Bool} (h : m.assigned name = some b) :
    m.valuation name = b := by
  simp [valuation, h]

theorem agrees_valuation (m : Model) : m.Agrees m.valuation :=
  fun _ _ h => valuation_of_assigned h

theorem Extends.agrees {n : Model} (h : m.Extends n) : n.Agrees m.valuation :=
  fun name b hb => valuation_of_assigned (h name b hb)

theorem values_append {xs ys : List String} :
    m.Values (xs ++ ys) ↔ m.Values xs ∧ m.Values ys := by
  simp only [Values, List.mem_append]
  exact ⟨fun h => ⟨fun n hn => h n (.inl hn), fun n hn => h n (.inr hn)⟩,
    fun ⟨hx, hy⟩ n hn => hn.elim (hx n) (hy n)⟩

theorem TotalOn.values {names : SortedSet String} (h : m.TotalOn names) {xs : List String}
    (hx : ∀ name ∈ xs, name ∈ names) : m.Values xs :=
  fun name hn => h.valued name (hx name hn)

@[simp] theorem assigned_ofValuation (names : SortedSet String) (v : Valuation)
    (name : String) :
    (ofValuation names v).assigned name = if name ∈ names then some (v name) else none := by
  have hget : ∀ b, (ofValuation names v).get? name = some b ↔ name ∈ names ∧ some (v name) = b := by
    intro b
    rw [SortedMap.get?_eq_some_iff, ofValuation, List.mem_map]
    constructor
    · intro h
      obtain ⟨x, hx, h⟩ := h
      cases h
      exact ⟨hx, rfl⟩
    · intro h
      obtain ⟨hx, rfl⟩ := h
      exact ⟨name, hx, rfl⟩
  split
  · next hn => rw [assigned, (hget _).2 ⟨hn, rfl⟩]; rfl
  · next hn =>
    cases hg : (ofValuation names v).get? name with
    | none => rw [assigned, hg]; rfl
    | some b => exact absurd ((hget b).1 hg).1 hn

theorem totalOn_ofValuation (names : SortedSet String) (v : Valuation) :
    (ofValuation names v).TotalOn names where
  keys := by
    apply SortedSet.ext
    intro name
    rw [← SortedMap.mem_iff_mem_keys, SortedMap.mem_iff, ofValuation]
    constructor
    · intro h
      obtain ⟨_, h⟩ := h
      obtain ⟨x, hx, hp⟩ := List.mem_map.1 h
      cases hp
      exact hx
    · intro h
      exact ⟨some (v name), List.mem_map.2 ⟨name, h, rfl⟩⟩
  valued := by
    intro name hn
    simp [hn]

theorem extends_ofValuation {xs ys : SortedSet String} (h : ∀ name ∈ xs, name ∈ ys)
    (v : Valuation) : (ofValuation ys v).Extends (ofValuation xs v) := by
  intro name b hb
  rw [assigned_ofValuation] at hb ⊢
  split at hb
  · next hn => rwa [if_pos (h name hn)]
  · cases hb

theorem valuation_ofValuation {names : SortedSet String} {name : String} (h : name ∈ names) :
    (ofValuation names v).valuation name = v name := by
  simp [valuation, h]

end Model

/-! ## Evaluation on a model -/

theorem Literal.evaluate_eq_ok_iff {l : Literal} {b : Bool} :
    l.evaluate m = .ok b ↔ (m.assigned l.name).isSome = true ∧ l.value m.valuation = b := by
  cases h : m.assigned l.name <;> simp [evaluate, value, Model.valuation, h]

namespace Sentence

/-- A sentence has a truth value on a model exactly when all its symbols do, namely the one under
the valuation of the model. -/
theorem evaluate_eq_ok_iff {s : Sentence} {b : Bool} :
    s.evaluate m = .ok b ↔ m.Values s.symbolOccurrences ∧ s.value m.valuation = b := by
  induction s generalizing b with
  | atomic a =>
    cases a with
    | literal l =>
      show l.evaluate m = .ok b ↔ _
      rw [Literal.evaluate_eq_ok_iff]
      simp [Model.Values, symbolOccurrences, Atom.symbols, value, Atom.value]
    | constant _ =>
      simp [evaluate, Atom.evaluate, Model.Values, symbolOccurrences, Atom.symbols, value,
        Atom.value]
  | negation operand ih =>
    simp only [evaluate, bind_eq_ok, pure_eq_ok, ih, and_assoc, exists_and_left, exists_eq_left',
      symbolOccurrences, value]
  | binary c left right ihl ihr =>
    simp only [evaluate, bind_eq_ok, pure_eq_ok, ihl, ihr, and_assoc, exists_and_left,
      exists_eq_left', symbolOccurrences, value, Model.values_append]

theorem evaluate_of_values {s : Sentence} (h : m.Values s.symbolOccurrences) :
    s.evaluate m = .ok (s.value m.valuation) :=
  evaluate_eq_ok_iff.2 ⟨h, rfl⟩

/-- On the total model that a valuation gives, a sentence is what it is under the valuation. -/
theorem evaluate_ofValuation {s : Sentence} {names : SortedSet String}
    (h : ∀ name ∈ s.symbolOccurrences, name ∈ names) (v : Valuation) :
    s.evaluate (.ofValuation names v) = .ok (s.value v) := by
  have same : s.value (Model.ofValuation names v).valuation = s.value v :=
    value_congr fun name hn => Model.valuation_ofValuation (h name hn)
  rw [evaluate_of_values ((Model.totalOn_ofValuation names v).values h), same]

/-- What is settled on a model stays so under every valuation that goes on from it. -/
theorem value_of_evaluate {s : Sentence} {b : Bool} (h : s.evaluate m = .ok b)
    (hv : m.Agrees v) : s.value v = b := by
  obtain ⟨values, rfl⟩ := evaluate_eq_ok_iff.1 h
  refine value_congr fun name hn => ?_
  obtain ⟨b, hb⟩ := Option.isSome_iff_exists.1 (values name hn)
  rw [hv name b hb, Model.valuation_of_assigned hb]

end Sentence

namespace Clause

theorem mapM_evaluate_eq_ok_iff {ls : List Literal} {bs : List Bool} :
    ls.mapM (·.evaluate m) = .ok bs ↔
      m.Values (ls.map Literal.name) ∧ ls.map (·.value m.valuation) = bs := by
  induction ls generalizing bs with
  | nil => simp [Model.Values, pure_eq_ok]
  | cons l ls ih =>
    have split : m.Values (l.name :: ls.map Literal.name) ↔
        (m.assigned l.name).isSome = true ∧ m.Values (ls.map Literal.name) := by
      simp [Model.Values]
    simp only [List.mapM_cons, List.map_cons, split, bind_eq_ok, pure_eq_ok, ih,
      Literal.evaluate_eq_ok_iff, and_assoc, exists_and_left, exists_eq_left']

/-- A clause has a truth value on a model exactly when all its symbols do, namely the one under the
valuation of the model. -/
theorem evaluate_eq_ok_iff {c : Clause} {b : Bool} :
    c.evaluate m = .ok b ↔ m.Values c.symbols ∧ c.value m.valuation = b := by
  simp only [evaluate, bind_eq_ok, pure_eq_ok, mapM_evaluate_eq_ok_iff, and_assoc, exists_and_left,
    exists_eq_left', value, symbols, List.any_map]
  rfl

theorem evaluate_of_values {c : Clause} (h : m.Values c.symbols) :
    c.evaluate m = .ok (c.value m.valuation) :=
  evaluate_eq_ok_iff.2 ⟨h, rfl⟩

/-- Only the symbols of a clause bear on its truth. -/
theorem value_congr {c : Clause} (h : ∀ name ∈ c.symbols, v name = w name) :
    c.value v = c.value w := by
  have hl : ∀ l ∈ c.literals, l.value v = l.value w := fun l hl => by
    rw [Literal.value, Literal.value, h l.name (List.mem_map_of_mem hl)]
  rw [Bool.eq_iff_iff, value_eq_true_iff, value_eq_true_iff]
  exact exists_congr fun l => and_congr_right fun hm => by rw [hl l hm]

end Clause

end Entailment
