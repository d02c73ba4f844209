import Entailment.Sentence.Parser

/-!
# What reading does to a symbol table

On canonical tables a computation that registers symbols does the same wherever it starts: it gives
one result and registers one list of symbols (`Registers`). Reading a text is such a computation, so
its result does not hang on the table. `Sentence.tree` is that result, and the equations below give
it by the outline of the text, without any table.
-/

namespace Entailment

namespace SymbolTable

variable {table : SymbolTable}

/-- Registers symbols in order. One that the table has stays as it is. -/
def registerAll (table : SymbolTable) (symbols : List Symbol) : SymbolTable :=
  symbols.foldl (fun t p => t.insert p.name (.positive p)) table

theorem canonical_iff : table.Canonical ↔
    ∀ name l, table.get? name = some l → l.name = name ∧ l.negated = false := by
  constructor
  · intro h name l hl
    exact h (name, l) (SortedMap.get?_eq_some_iff.1 hl)
  · intro h entry he
    exact h entry.1 entry.2 (SortedMap.get?_eq_some_iff.2 he)

theorem canonical_empty : Canonical ∅ := by
  intro entry h
  cases h

theorem Canonical.get? (h : table.Canonical) {p : Symbol} {l : Literal}
    (hl : table.get? p.name = some l) : l = .positive p := by
  obtain ⟨hn, hs⟩ := canonical_iff.1 h p.name l hl
  exact Literal.ext (Symbol.ext hn) hs

theorem Canonical.insert (h : table.Canonical) (p : Symbol) :
    Canonical (table.insert p.name (.positive p)) := by
  rw [canonical_iff]
  intro name l hl
  rw [SortedMap.get?_insert] at hl
  split at hl
  · next hn =>
    cases hl
    exact ⟨hn.symm, rfl⟩
  · exact canonical_iff.1 h name l hl

theorem Canonical.registerAll (h : table.Canonical) (symbols : List Symbol) :
    (table.registerAll symbols).Canonical := by
  induction symbols generalizing table with
  | nil => exact h
  | cons p ps ih => exact ih (h.insert p)

theorem registerAll_append (table : SymbolTable) (ps qs : List Symbol) :
    table.registerAll (ps ++ qs) = (table.registerAll ps).registerAll qs :=
  List.foldl_append

theorem mem_registerAll {symbols : List Symbol} {name : String} :
    name ∈ table.registerAll symbols ↔ (∃ p ∈ symbols, p.name = name) ∨ name ∈ table := by
  induction symbols generalizing table with
  | nil => simp [registerAll]
  | cons p ps ih =>
    rw [registerAll, List.foldl_cons, ← registerAll, ih, SortedMap.mem_insert]
    constructor
    · intro h
      rcases h with ⟨q, hq, hn⟩ | rfl | h
      · exact .inl ⟨q, List.mem_cons_of_mem _ hq, hn⟩
      · exact .inl ⟨p, List.mem_cons_self, rfl⟩
      · exact .inr h
    · intro h
      rcases h with ⟨q, hq, hn⟩ | h
      · rcases List.mem_cons.1 hq with rfl | hq
        · exact .inr (.inl hn.symm)
        · exact .inl ⟨q, hq, hn⟩
      · exact .inr (.inr h)

/-- Registering a symbol that a canonical table has changes nothing. -/
theorem Canonical.insert_of_get? (h : table.Canonical) {p : Symbol} {l : Literal}
    (hl : table.get? p.name = some l) : table.insert p.name (.positive p) = table := by
  apply SortedMap.ext
  intro name
  rw [SortedMap.get?_insert]
  split
  · next hn => rw [hn, hl, h.get? hl]
  · rfl

end SymbolTable

/-! ## Computations that register symbols -/

/-- From every canonical table on, the computation gives the result and registers the symbols. -/
def Registers {α : Type} (x : Registering α) (result : Except ParseError α)
    (symbols : List Symbol) : Prop :=
  ∀ table : SymbolTable, table.Canonical → x.run.run table = (result, table.registerAll symbols)

namespace Registers

variable {α β : Type} {x : Registering α} {f : α → Registering β} {ps qs : List Symbol}

theorem pure (a : α) : Registers (pure a) (.ok a) [] :=
  fun _ _ => rfl

theorem throw (e : ParseError) : Registers (throw e : Registering α) (.error e) [] :=
  fun _ _ => rfl

theorem run_bind (x : Registering α) (f : α → Registering β) (table : SymbolTable) :
    (x >>= f).run.run table = match x.run.run table with
      | (.ok a, t) => (f a).run.run t
      | (.error e, t) => (.error e, t) := by
  rw [ExceptT.run_bind, StateT.run_bind]
  cases x.run.run table with
  | mk result t => cases result <;> rfl

theorem bind {a : α} {result : Except ParseError β} (hx : Registers x (.ok a) ps)
    (hf : Registers (f a) result qs) : Registers (x >>= f) result (ps ++ qs) := by
  intro table h
  rw [run_bind, hx table h, SymbolTable.registerAll_append]
  exact hf _ (h.registerAll ps)

theorem bind_error {e : ParseError} (hx : Registers x (.error e) ps) :
    Registers (x >>= f) (.error e) ps := by
  intro table h
  rw [run_bind, hx table h]

theorem exists_bind {g : α → Except ParseError β} {result : Except ParseError α}
    (hx : Registers x result ps) (hf : ∀ a, ∃ qs, Registers (f a) (g a) qs) :
    ∃ qs, Registers (x >>= f) (result >>= g) qs := by
  cases result with
  | error e => exact ⟨ps, hx.bind_error⟩
  | ok a =>
    obtain ⟨qs, hq⟩ := hf a
    exact ⟨ps ++ qs, hx.bind hq⟩

theorem map {a : α} (hx : Registers x (.ok a) ps) (g : α → β) :
    Registers (do return g (← x)) (.ok (g a)) ps := by
  have h := hx.bind (f := fun a => Pure.pure (g a)) (.pure (g a))
  rw [List.append_nil] at h
  exact h

theorem register (p : Symbol) : Registers (SymbolTable.register p) (.ok (.positive p)) [p] := by
  intro table h
  show (SymbolTable.register p).run.run table = (_, table.insert p.name (.positive p))
  have hget : (get : Registering SymbolTable).run.run table = (.ok table, table) := rfl
  rw [SymbolTable.register, run_bind, hget]
  cases hl : table.get? p.name with
  | some l =>
    obtain rfl := h.get? hl
    rw [h.insert_of_get? hl]
    simp only [hl]
    rfl
  | none =>
    simp only [hl]
    rfl

end Registers

/-- The symbols registered make up the result: on success they are those that occur in it. -/
def SymbolsOf {α : Type} (occurrences : α → List String) (result : Except ParseError α)
    (symbols : List Symbol) : Prop :=
  ∀ a, result = .ok a → ∀ name, name ∈ occurrences a ↔ ∃ p ∈ symbols, p.name = name

theorem symbolsOf_error {α : Type} {occurrences : α → List String} {e : ParseError}
    {symbols : List Symbol} : SymbolsOf occurrences (.error e) symbols := by
  intro a h
  cases h

theorem symbolsOf_ok {α : Type} {occurrences : α → List String} {a : α} {symbols : List Symbol} :
    SymbolsOf occurrences (.ok a) symbols ↔
      ∀ name, name ∈ occurrences a ↔ ∃ p ∈ symbols, p.name = name := by
  constructor
  · intro h
    exact h a rfl
  · intro h b hb
    cases hb
    exact h

/-! ## Reading a text -/

namespace Sentence

variable {text : List Char}

theorem exists_registers_read (text : List Char) :
    ∃ result symbols, Registers (read text) result symbols ∧
      SymbolsOf symbolOccurrences result symbols := by
  fun_induction read text with
  | case1 text e he => exact ⟨_, _, .throw e, symbolsOf_error⟩
  | case2 text b hb =>
    refine ⟨_, _, .pure _, symbolsOf_ok.2 ?_⟩
    simp [symbolOccurrences, Atom.symbols]
  | case3 text p negated hp =>
    refine ⟨_, _, (Registers.register p).map _, symbolsOf_ok.2 ?_⟩
    intro name
    cases negated <;> simp [symbolOccurrences, Atom.symbols, Literal.name, Literal.negate,
      Literal.positive, eq_comm]
  | case4 text inside hi ih => exact ih
  | case5 text operand ho ih =>
    obtain ⟨result, ps, hr, hs⟩ := ih
    cases result with
    | error e => exact ⟨_, _, hr.bind_error, symbolsOf_error⟩
    | ok t =>
      have ht := symbolsOf_ok.1 hs
      exact ⟨_, _, hr.map negation, symbolsOf_ok.2 ht⟩
  | case6 text left e hl ih =>
    obtain ⟨result, ps, hr, -⟩ := ih
    cases result with
    | error e' => exact ⟨_, _, hr.bind_error, symbolsOf_error⟩
    | ok t => exact ⟨_, _, hr.bind (.throw e), symbolsOf_error⟩
  | case7 text left c right hj ihl ihr =>
    obtain ⟨x, ps, hl, hls⟩ := ihl
    obtain ⟨y, qs, hr, hrs⟩ := ihr
    cases x with
    | error e => exact ⟨_, _, hl.bind_error, symbolsOf_error⟩
    | ok l =>
      cases y with
      | error e => exact ⟨_, _, hl.bind hr.bind_error, symbolsOf_error⟩
      | ok r =>
        refine ⟨_, _, hl.bind (hr.map (binary c l)), symbolsOf_ok.2 ?_⟩
        intro name
        simp only [symbolOccurrences, List.mem_append, symbolsOf_ok.1 hls, symbolsOf_ok.1 hrs,
          or_and_right, exists_or]

/-- The result of reading a text, which is the same for all canonical tables. -/
def tree (text : List Char) : Except ParseError Sentence :=
  ((read text).run.run ∅).1

theorem tree_eq_of_registers {result : Except ParseError Sentence}
    (h : ∃ symbols, Registers (read text) result symbols) : tree text = result := by
  obtain ⟨symbols, hr⟩ := h
  rw [tree, hr ∅ SymbolTable.canonical_empty]

theorem registers_read (text : List Char) :
    ∃ symbols, Registers (read text) (tree text) symbols ∧
      SymbolsOf symbolOccurrences (tree text) symbols := by
  obtain ⟨result, symbols, hr, hs⟩ := exists_registers_read text
  obtain rfl := tree_eq_of_registers ⟨symbols, hr⟩
  exact ⟨symbols, hr, hs⟩

theorem parse_eq_tree {table : SymbolTable} (h : table.Canonical) (text : String) :
    (parse text table).1 = tree text.toList := by
  obtain ⟨symbols, hr, -⟩ := registers_read text.toList
  rw [parse, hr table h]

/-! ## The result, by the outline of the text -/

theorem tree_of_error {e : ParseError} (h : outline text = .error e) : tree text = .error e := by
  apply tree_eq_of_registers
  rw [read_of_error h]
  exact ⟨_, .throw e⟩

theorem tree_of_constant {b : Bool} (h : outline text = .ok (.constant b)) :
    tree text = .ok (constant b) := by
  apply tree_eq_of_registers
  rw [read_of_constant h]
  exact ⟨_, .pure _⟩

theorem registers_read_of_literal {p : Symbol} {negated : Bool}
    (h : outline text = .ok (.literal p negated)) :
    Registers (read text) (.ok (literal ⟨p, negated⟩)) [p] := by
  rw [read_of_literal h]
  have hr := (Registers.register p).map fun known =>
    literal (if negated then known.negate else known)
  cases negated <;> exact hr

theorem tree_of_literal {p : Symbol} {negated : Bool}
    (h : outline text = .ok (.literal p negated)) : tree text = .ok (literal ⟨p, negated⟩) :=
  tree_eq_of_registers ⟨_, registers_read_of_literal h⟩

theorem tree_of_bracketed {inside : List Char} (h : outline text = .ok (.bracketed inside)) :
    tree text = tree inside := by
  rw [tree, read_of_bracketed h, tree]

theorem tree_of_negated {operand : List Char} (h : outline text = .ok (.negated operand)) :
    tree text = do return negation (← tree operand) := by
  obtain ⟨ps, hr, -⟩ := registers_read operand
  apply tree_eq_of_registers
  rw [read_of_negated h]
  exact hr.exists_bind fun t => ⟨_, .pure _⟩

theorem tree_of_joined_error {left : List Char} {e : ParseError}
    (h : outline text = .ok (.joined left (.error e))) :
    tree text = (do let _ ← tree left; throw e) := by
  obtain ⟨ps, hr, -⟩ := registers_read left
  apply tree_eq_of_registers
  rw [read_of_joined_error h]
  exact hr.exists_bind fun t => ⟨_, .throw e⟩

theorem tree_of_joined {left right : List Char} {c : Connective}
    (h : outline text = .ok (.joined left (.ok (c, right)))) :
    tree text = do return binary c (← tree left) (← tree right) := by
  obtain ⟨ps, hl, -⟩ := registers_read left
  obtain ⟨qs, hr, -⟩ := registers_read right
  apply tree_eq_of_registers
  rw [read_of_joined h]
  exact hl.exists_bind fun l => hr.exists_bind fun r => ⟨_, .pure _⟩

end Sentence

end Entailment
