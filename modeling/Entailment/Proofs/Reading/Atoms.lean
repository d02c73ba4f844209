import Entailment.Proofs.Reading.Tokens

/-!
# Atoms

Symbols and constants have no marks, so no token begins in them. The outline of a text is an atom
just if the text is a constant, a symbol, or a symbol after one sign (`outlineAtom?_cases`).
-/

namespace Entailment

theorem not_mem_marks_of {p : Char → Bool} (hp : marks.any p = false) {c : Char}
    (h : p c = true) : c ∉ marks := by
  intro hm
  exact List.any_eq_false.1 hp c hm h

theorem not_mem_marks_of_isLetter {c : Char} (h : Text.isLetter c = true) : c ∉ marks :=
  not_mem_marks_of (by decide) h

theorem not_mem_marks_of_isDigit {c : Char} (h : c.isDigit = true) : c ∉ marks :=
  not_mem_marks_of (p := Char.isDigit) (by decide) h

/-- A symbol is made of letters and digits. -/
theorem isLetter_or_isDigit_of_isSymbol {text : List Char} (h : isSymbol text = true) :
    ∀ c ∈ text, Text.isLetter c = true ∨ c.isDigit = true := by
  unfold isSymbol at h
  split at h
  · next letter => exact List.forall_mem_singleton.2 (.inl h)
  · next letter digit =>
    rw [Bool.and_eq_true] at h
    exact List.forall_mem_cons.2 ⟨.inl h.1, List.forall_mem_singleton.2 (.inr h.2)⟩
  · cases h

theorem not_mem_marks_of_isSymbol {text : List Char} (h : isSymbol text = true) :
    ∀ c ∈ text, c ∉ marks := by
  intro c hc
  rcases isLetter_or_isDigit_of_isSymbol h c hc with hl | hd
  · exact not_mem_marks_of_isLetter hl
  · exact not_mem_marks_of_isDigit hd

theorem Symbol.not_mem_marks (p : Symbol) : ∀ c ∈ p.name.toList, c ∉ marks :=
  not_mem_marks_of_isSymbol p.isSymbol_name

theorem not_mem_marks_valueText (b : Bool) : ∀ c ∈ (valueText (some b)).toList, c ∉ marks := by
  cases b <;> simp [valueText, marks]

theorem Symbol.name_ne_nil (p : Symbol) : p.name.toList ≠ [] := by
  intro h
  have hs := p.isSymbol_name
  rw [h] at hs
  cases hs

theorem isSymbol_valueText (b : Bool) : isSymbol (valueText (some b)).toList = false := by
  cases b <;> decide

theorem Symbol.ofName?_toList (p : Symbol) :
    Symbol.ofName? (String.ofList p.name.toList) = some p := by
  rw [String.ofList_toList, ofName?_name]

theorem Symbol.ofName?_ofList {text : List Char} {p : Symbol}
    (h : Symbol.ofName? (String.ofList text) = some p) : text = p.name.toList := by
  rw [name_of_ofName? h, String.toList_ofList]

theorem Symbol.ofName?_ofList_eq_none {text : List Char} (h : isSymbol text = false) :
    Symbol.ofName? (String.ofList text) = none := by
  rw [ofName?_eq_none_iff, String.toList_ofList, h]

/-! ## Outlines of atoms -/

/-- An atom is a constant, or a symbol after one sign at most. -/
theorem outlineAtom?_cases {text : List Char} {o : Outline} (h : outlineAtom? text = some o) :
    (∃ b, o = .constant b ∧ text = (valueText (some b)).toList) ∨
    (∃ p, o = .literal p false ∧ text = p.name.toList) ∨
    ∃ p, o = .literal p true ∧ text = '~' :: p.name.toList := by
  unfold outlineAtom? at h
  split at h
  · next ht =>
    cases h
    exact .inl ⟨true, rfl, ht⟩
  split at h
  · next hf =>
    cases h
    exact .inl ⟨false, rfl, hf⟩
  split at h
  · next name =>
    obtain ⟨p, hp, rfl⟩ := Option.map_eq_some_iff.1 h
    exact .inr (.inr ⟨p, rfl, by rw [Symbol.ofName?_ofList hp]⟩)
  · obtain ⟨p, hp, rfl⟩ := Option.map_eq_some_iff.1 h
    exact .inr (.inl ⟨p, rfl, Symbol.ofName?_ofList hp⟩)

/-- Behind its first character an atom has no mark. -/
theorem outlineAtom?_eq_none {c d : Char} {text : List Char} (hd : d ∈ text) (hm : d ∈ marks) :
    outlineAtom? (c :: text) = none := by
  cases h : outlineAtom? (c :: text) with
  | none => rfl
  | some o =>
    rcases outlineAtom?_cases h with ⟨b, -, ht⟩ | ⟨p, -, ht⟩ | ⟨p, -, ht⟩
    · exact absurd hm (not_mem_marks_valueText b d (ht ▸ List.mem_cons_of_mem _ hd))
    · exact absurd hm (p.not_mem_marks d (ht ▸ List.mem_cons_of_mem _ hd))
    · rw [List.cons.injEq] at ht
      exact absurd hm (p.not_mem_marks d (ht.2 ▸ hd))

theorem outline_of_atom {text : List Char} {o : Outline} (h : outlineAtom? text = some o) :
    outline text = .ok o := by
  have hne : text ≠ [] := by
    intro he
    have hn : outlineAtom? [] = none := by decide
    rw [he, hn] at h
    cases h
  rw [outline, if_neg hne, h]

theorem outline_of_compound {text : List Char} (hne : text ≠ []) (h : outlineAtom? text = none) :
    outline text = outlineCompound text := by
  rw [outline, if_neg hne, h]

theorem outline_constant (b : Bool) :
    outline (valueText (some b)).toList = .ok (.constant b) := by
  cases b <;> exact outline_of_atom rfl

theorem Symbol.name_ne_valueText (p : Symbol) (b : Bool) :
    p.name.toList ≠ (valueText (some b)).toList := by
  intro h
  have hs := p.isSymbol_name
  rw [h, isSymbol_valueText] at hs
  cases hs

theorem Symbol.exists_name (p : Symbol) :
    ∃ c cs, p.name.toList = c :: cs ∧ c ∉ marks := by
  cases h : p.name.toList with
  | nil => exact absurd h p.name_ne_nil
  | cons c cs => exact ⟨c, cs, rfl, p.not_mem_marks c (h ▸ List.mem_cons_self)⟩

theorem outline_symbol (p : Symbol) : outline p.name.toList = .ok (.literal p false) := by
  apply outline_of_atom
  obtain ⟨c, cs, hp, hc⟩ := p.exists_name
  rw [outlineAtom?, if_neg (p.name_ne_valueText true), if_neg (p.name_ne_valueText false)]
  · rw [p.ofName?_toList]
    rfl
  · intro name h
    rw [h, List.cons.injEq] at hp
    rw [← hp.1] at hc
    exact absurd (by decide) hc

theorem outlineAtom?_negation (name : List Char) :
    outlineAtom? ('~' :: name) =
      (Symbol.ofName? (String.ofList name)).map (Outline.literal · true) := by
  have hne : ∀ b, '~' :: name ≠ (valueText (some b)).toList := by
    intro b h
    have hm := not_mem_marks_valueText b '~' (h ▸ List.mem_cons_self)
    exact absurd (by decide) hm
  rw [outlineAtom?, if_neg (hne true), if_neg (hne false)]

theorem outline_negatedSymbol (p : Symbol) :
    outline ('~' :: p.name.toList) = .ok (.literal p true) := by
  apply outline_of_atom
  rw [outlineAtom?_negation, p.ofName?_toList]
  rfl

end Entailment
