import Entailment.Proofs.Reading.Grammar

/-!
# What reading adds to a symbol table

Reading goes on with parts of the text only (`isInfix_of_outline`), and it registers a symbol where
the symbol makes up the whole of a part. So every symbol that is registered occurs in the text,
also if the text turns out to be no sentence (`registersWithin_read`). If it is a sentence, the
symbols registered are those of the sentence.
-/

namespace Entailment

/-! ## Parts of a text -/

section
variable {text : List Char} {o : Outline}

theorem atom_or_falls_of_outline (h : outline text = .ok o) :
    outlineAtom? text = some o ∨ Falls text o := by
  have hne : text ≠ [] := by
    intro he
    rw [he] at h
    cases h
  cases ha : outlineAtom? text with
  | some a =>
    rw [outline_of_atom ha] at h
    cases h
    exact .inl rfl
  | none =>
    rw [outline_of_compound hne ha] at h
    exact .inr (falls_of_outlineCompound h)

theorem isInfix_of_joined {left rest whole : List Char} (atLeft : left <:+: text)
    (atRest : rest <:+: text) :
    ∀ part ∈ (Outline.joined left (outlineRest whole rest)).parts, part <:+: text := by
  cases hr : outlineRest whole rest with
  | error e => exact List.forall_mem_singleton.2 atLeft
  | ok found =>
    obtain ⟨c, right⟩ := found
    have behind : right <:+: rest := by
      rw [append_of_outlineRest hr]
      exact (List.suffix_append _ _).isInfix
    exact List.forall_mem_cons.2 ⟨atLeft, List.forall_mem_singleton.2 (behind.trans atRest)⟩

theorem Falls.isInfix (h : Falls text o) : ∀ part ∈ o.parts, part <:+: text := by
  cases h with
  | @connective m c cut token =>
    have ht := append_of_leftmostToken cut
    refine List.forall_mem_cons.2 ⟨?_, List.forall_mem_singleton.2 ?_⟩
    · rw [ht, List.append_assoc]
      exact (List.prefix_append _ _).isInfix
    · rw [ht]
      exact (List.suffix_append _ _).isInfix
  | @bracketed inside ht =>
    refine List.forall_mem_singleton.2 ?_
    rw [ht]
    exact ⟨['('], [')'], rfl⟩
  | @bracketedFirst inside rest ht =>
    refine isInfix_of_joined ?_ ?_
    · rw [ht]
      exact ⟨['('], [')'] ++ rest, by simp⟩
    · rw [ht]
      exact (List.suffix_append _ _).isInfix
  | @negated operand ht =>
    refine List.forall_mem_singleton.2 ?_
    rw [ht]
    exact (List.suffix_cons _ _).isInfix
  | @negatedFirst operand rest ht =>
    refine isInfix_of_joined ?_ ?_
    · rw [ht]
      exact (List.prefix_append _ _).isInfix
    · rw [ht]
      exact (List.suffix_append _ _).isInfix

/-- The parts that remain to be read stand in the text as they are. -/
theorem isInfix_of_outline (h : outline text = .ok o) : ∀ part ∈ o.parts, part <:+: text := by
  rcases atom_or_falls_of_outline h with ha | hf
  · rw [parts_outlineAtom? ha]
    intro part hp
    cases hp
  · exact hf.isInfix

theorem isInfix_name_of_outline {p : Symbol} {negated : Bool}
    (h : outline text = .ok (.literal p negated)) : p.name.toList <:+: text := by
  rcases atom_or_falls_of_outline h with ha | hf
  · rcases outlineAtom?_cases ha with ⟨b, ho, -⟩ | ⟨q, ho, ht⟩ | ⟨q, ho, ht⟩
    · cases ho
    · cases ho
      exact ht ▸ List.infix_rfl
    · cases ho
      rw [ht]
      exact (List.suffix_cons _ _).isInfix
  · cases hf

end

/-! ## Names that are registered -/

/-- The text has the name in it, and the name is that of a symbol. -/
def Mentions (text : List Char) (name : String) : Prop :=
  isSymbol name.toList = true ∧ name.toList <:+: text

theorem Mentions.mono {part text : List Char} {name : String} (h : Mentions part name)
    (hp : part <:+: text) : Mentions text name :=
  ⟨h.1, h.2.trans hp⟩

/-- The names that the computation adds to a table are among the given ones, also if it fails. -/
def RegistersWithin {α : Type} (names : String → Prop) (x : Registering α) : Prop :=
  ∀ (table : SymbolTable) (name : String),
    name ∈ (x.run.run table).2 → name ∈ table ∨ names name

namespace RegistersWithin

variable {α β : Type} {names : String → Prop} {x : Registering α} {f : α → Registering β}

theorem pure (a : α) : RegistersWithin names (pure a) :=
  fun _ _ => .inl

theorem throw (e : ParseError) : RegistersWithin names (throw e : Registering α) :=
  fun _ _ => .inl

theorem bind (hx : RegistersWithin names x) (hf : ∀ a, RegistersWithin names (f a)) :
    RegistersWithin names (x >>= f) := by
  intro table name hn
  rw [Registers.run_bind] at hn
  cases hr : x.run.run table with
  | mk result t =>
    have before := hx table name
    rw [hr] at hn before
    cases result with
    | error e => exact before hn
    | ok a =>
      rcases hf a t name hn with ht | hnew
      · exact before ht
      · exact .inr hnew

theorem register {p : Symbol} (hp : names p.name) :
    RegistersWithin names (SymbolTable.register p) := by
  intro table name hn
  have hget : (get : Registering SymbolTable).run.run table = (.ok table, table) := rfl
  rw [SymbolTable.register, Registers.run_bind, hget] at hn
  cases hl : table.get? p.name with
  | some l =>
    simp only [hl] at hn
    exact .inl hn
  | none =>
    simp only [hl] at hn
    rcases SortedMap.mem_insert.1 hn with rfl | ht
    · exact .inr hp
    · exact .inl ht

theorem mono {names' : String → Prop} (hx : RegistersWithin names x)
    (h : ∀ name, names name → names' name) : RegistersWithin names' x :=
  fun table name hn => (hx table name hn).imp_right (h name)

end RegistersWithin

namespace Sentence

theorem registersWithin_of_part {part text : List Char} {o : Outline}
    (ho : outline text = .ok o) (hp : part ∈ o.parts)
    (h : RegistersWithin (Mentions part) (read part)) :
    RegistersWithin (Mentions text) (read part) :=
  h.mono fun _ hn => hn.mono (isInfix_of_outline ho part hp)

/-- Reading registers no symbol but those in the text. The induction is that of reading, and what
the parts mention the text does too. -/
theorem registersWithin_read (text : List Char) : RegistersWithin (Mentions text) (read text) := by
  fun_induction read text with
  | case1 text e ho => exact .throw e
  | case2 text b ho => exact .pure _
  | case3 text p negated ho =>
    have hp : Mentions text p.name := ⟨p.isSymbol_name, isInfix_name_of_outline ho⟩
    exact (RegistersWithin.register hp).bind fun known => .pure _
  | case4 text inside ho ih => exact registersWithin_of_part ho List.mem_cons_self ih
  | case5 text operand ho ih =>
    exact (registersWithin_of_part ho List.mem_cons_self ih).bind fun s => .pure _
  | case6 text left e ho ih =>
    exact (registersWithin_of_part ho List.mem_cons_self ih).bind fun s => .throw e
  | case7 text left c right ho ihl ihr =>
    have hl := registersWithin_of_part ho List.mem_cons_self ihl
    have hr := registersWithin_of_part ho (List.mem_cons_of_mem _ List.mem_cons_self) ihr
    exact hl.bind fun l => hr.bind fun r => .pure _

end Sentence

theorem SymbolTable.Canonical.get?_registerAll {table : SymbolTable} (h : table.Canonical)
    {name : String} {l : Literal} (hl : table.get? name = some l) (symbols : List Symbol) :
    (table.registerAll symbols).get? name = some l := by
  induction symbols generalizing table with
  | nil => exact hl
  | cons p ps ih =>
    refine ih (h.insert p) ?_
    rw [SortedMap.get?_insert]
    split
    · next hn =>
      subst hn
      rw [h.get? hl]
    · exact hl

/-- What reading with a canonical table gives, and what it makes of the table. The sentence or the
error does not hang on the table. The table stays canonical and keeps its entries; the names that
come to it are those of the sentence read, and if there is none, names that the text mentions. -/
theorem parse_registers {table : SymbolTable} (h : table.Canonical) (text : String) :
    (Sentence.parse text table).1 = (Sentence.parse text ∅).1 ∧
    (Sentence.parse text table).2.Canonical ∧
    (∀ name l, table.get? name = some l → (Sentence.parse text table).2.get? name = some l) ∧
    (∀ s, (Sentence.parse text table).1 = .ok s → ∀ name,
      name ∈ (Sentence.parse text table).2 ↔ name ∈ table ∨ name ∈ s.symbols) ∧
    ∀ e, (Sentence.parse text table).1 = .error e → ∀ name,
      name ∈ (Sentence.parse text table).2 → name ∉ table → Mentions text.toList name := by
  obtain ⟨symbols, registers, symbolsOf⟩ := Sentence.registers_read text.toList
  have result : Sentence.parse text table =
      (Sentence.tree text.toList, table.registerAll symbols) := registers table h
  rw [Sentence.parse_eq_tree SymbolTable.canonical_empty, result]
  refine ⟨rfl, h.registerAll symbols, fun name l hl => h.get?_registerAll hl symbols, ?_, ?_⟩
  · intro s hs name
    rw [SymbolTable.mem_registerAll, Sentence.mem_symbols, symbolsOf s hs, or_comm]
  · intro e _ name hn fresh
    have within := Sentence.registersWithin_read text.toList table name
    rw [registers table h] at within
    exact (within hn).resolve_left fresh

/-- The symbol before the connective is registered, although the bracket behind it is not closed. If
an operand stands there instead, the table has the symbols of the sentence and those it had. -/
theorem parse_registers_unclosed :
    let a : Symbol := ⟨"a", by decide⟩
    let b : Symbol := ⟨"b", by decide⟩
    let c : Symbol := ⟨"c", by decide⟩
    let table := (∅ : SymbolTable).registerAll [b]
    let both : Sentence := .binary .conjunction (.literal (.positive a)) (.literal (.positive c))
    table.Canonical ∧ (Sentence.parse "a&(c" table).1 = .error (.unmatchedBracket 0) ∧
      (Sentence.parse "a&(c" ∅).1 = .error (.unmatchedBracket 0) ∧
      (Sentence.parse "a&(c" table).2.get? "b" = some (.positive b) ∧
      (Sentence.parse "a&(c" table).2.get? "a" = some (.positive a) ∧
      (∀ name, name ∈ (Sentence.parse "a&(c" table).2 → name ∉ table →
        Mentions "a&(c".toList name) ∧
      (Sentence.parse "a&c" table).1 = .ok both ∧
      ∀ name, name ∈ (Sentence.parse "a&c" table).2 ↔ name ∈ table ∨ name ∈ both.symbols := by
  intro a b c table both
  have h : table.Canonical := SymbolTable.canonical_empty.registerAll [b]
  have before : Registers (Sentence.read ['a']) (.ok (.literal (.positive a))) [a] :=
    Sentence.registers_read_of_literal rfl
  have behind : Registers (Sentence.read ['c']) (.ok (.literal (.positive c))) [c] :=
    Sentence.registers_read_of_literal rfl
  have unclosed : Registers (Sentence.read "a&(c".toList) (.error (.unmatchedBracket 0))
      ([a] ++ []) := by
    have whole : outline "a&(c".toList =
        .ok (.joined ['a'] (.ok (.conjunction, ['(', 'c']))) := rfl
    have right : outline ['(', 'c'] = .error (.unmatchedBracket 0) := rfl
    rw [Sentence.read_of_joined whole, Sentence.read_of_error right]
    exact before.bind (Registers.throw _).bind_error
  have closed : Registers (Sentence.read "a&c".toList) (.ok both) ([a] ++ [c]) := by
    have whole : outline "a&c".toList = .ok (.joined ['a'] (.ok (.conjunction, ['c']))) := rfl
    rw [Sentence.read_of_joined whole]
    exact before.bind (behind.map _)
  have fails := unclosed table h
  have succeeds := closed table h
  obtain ⟨same, -, kept, -, added⟩ := parse_registers h "a&(c"
  obtain ⟨-, -, -, registered, -⟩ := parse_registers h "a&c"
  have fails' := congrArg Prod.fst fails
  have succeeds' := congrArg Prod.fst succeeds
  have table' : (Sentence.parse "a&(c" table).2 = table.registerAll ([a] ++ []) :=
    congrArg Prod.snd fails
  refine ⟨h, fails', same.symm.trans fails', kept "b" (.positive b) rfl, ?_, added _ fails',
    succeeds', registered _ succeeds'⟩
  rw [table']
  decide

end Entailment
