import Entailment.Proofs.Basic
import Entailment.Proofs.Reading.Atoms
import Entailment.Proofs.Reading.Registering

/-!
# The grammar of sentences

    sentence ::= operand | operand connective sentence
    operand  ::= symbol | True | False | ( sentence ) | ~ operand

`Derives` is this grammar together with the sentence each derivation stands for. Reading is found by
searching for tokens and brackets instead, and yet reads just the texts that the grammar derives, as
just the sentences they stand for (`parse_eq_ok_iff_derives`).

From the grammar to reading, an operand is where `spanOperand` cuts, whatever connective follows
(`spanOperand_append_of_derives`). In the other direction a cut is not known to be at an operand,
but a sentence that is cut nowhere must be one (`derives_operand_of_span`).
-/

namespace Entailment

/-- What a text can be derived as. -/
inductive Category
  | operand
  | sentence

/-- The grammar of sentences, with the sentence that a text stands for. Chains of connectives nest
to the right and brackets leave no trace. A sign directly before a symbol makes the negated literal,
and before any other operand it makes a negation. -/
inductive Derives : Category → List Char → Sentence → Prop
  | symbol (p : Symbol) : Derives .operand p.name.toList (.literal (.positive p))
  | constant (b : Bool) : Derives .operand (valueText (some b)).toList (.constant b)
  | bracketed {text : List Char} {s : Sentence} (inside : Derives .sentence text s) :
    Derives .operand ('(' :: text ++ [')']) s
  | negatedSymbol (p : Symbol) :
    Derives .operand ('~' :: p.name.toList) (.literal (Literal.positive p).negate)
  | negation {text : List Char} {s : Sentence} (operand : Derives .operand text s)
    (other : isSymbol text = false) : Derives .operand ('~' :: text) (.negation s)
  | single {text : List Char} {s : Sentence} (operand : Derives .operand text s) :
    Derives .sentence text s
  | joined {left right : List Char} {l r : Sentence} (c : Connective)
    (operand : Derives .operand left l) (rest : Derives .sentence right r) :
    Derives .sentence (left ++ c.token.toList ++ right) (.binary c l r)

namespace Derives

variable {k : Category} {text : List Char} {s : Sentence}

theorem ne_nil (h : Derives k text s) : text ≠ [] := by
  induction h with
  | symbol p => exact p.name_ne_nil
  | constant b => cases b <;> decide
  | bracketed | negatedSymbol | negation => exact List.cons_ne_nil _ _
  | single _ ih => exact ih
  | joined c _ _ ihl _ => simp [ihl]

/-- Brackets are balanced in every derivable text. -/
theorem balanced (h : Derives k text s) : Balanced text := by
  have plain {text : List Char} (ht : ∀ c ∈ text, c ∉ marks) : Balanced text :=
    balanced_of_forall_ne fun c hc =>
      ⟨fun hb => ht c hc (hb ▸ by decide), fun hb => ht c hc (hb ▸ by decide)⟩
  have sign : Balanced ['~'] := balanced_cons (by decide) (by decide)
  induction h with
  | symbol p => exact plain p.not_mem_marks
  | constant b => exact plain (not_mem_marks_valueText b)
  | bracketed _ ih => exact ih.bracketed
  | negatedSymbol p => exact sign.append (plain p.not_mem_marks)
  | negation _ _ ih => exact sign.append ih
  | single _ ih => exact ih
  | joined c _ _ ihl ihr =>
    have token : Balanced c.token.toList :=
      balanced_of_forall_ne (by cases c <;> simp [Connective.token])
    exact (ihl.append token).append ihr

end Derives

/-! ## From the grammar to reading -/

/-- What may follow an operand: nothing, or a connective. -/
def Follows (rest : List Char) : Prop :=
  rest = [] ∨ ∃ c : Connective, ∃ after, rest = c.token.toList ++ after

theorem leftmostToken_of_connective (c : Connective) (after : List Char) :
    leftmostToken Token.all (c.token.toList ++ after) = some ⟨[], .connective c, after⟩ :=
  leftmostToken_chars_append (Token.mem_all (.connective c)) after

theorem spanOperand_of_plain {offset : Nat} {text rest : List Char} (hne : text ≠ [])
    (h : ∀ c ∈ text, c ∉ marks) (hr : Follows rest) :
    spanOperand offset (text ++ rest) = .ok (text, rest) := by
  cases text with
  | nil => exact absurd rfl hne
  | cons c text =>
    have hc := h c List.mem_cons_self
    have hn : c ≠ '~' := fun hc' => hc (hc' ▸ by decide)
    have ho : c ≠ '(' := fun hc' => hc (hc' ▸ by decide)
    have hl : leftmostToken Token.all (c :: text ++ rest) = _ := leftmostToken_append h
    rw [List.cons_append] at hl ⊢
    rw [spanOperand_cons hn ho, hl]
    rcases hr with rfl | ⟨d, after, rfl⟩
    · simp [leftmostToken]
    · rw [leftmostToken_of_connective]
      simp [Token.chars]

/-- An operand is cut off whole, whatever connective follows it. -/
theorem spanOperand_append_of_derives {text rest : List Char} {s : Sentence}
    (h : Derives .operand text s) (hr : Follows rest) (offset : Nat) :
    spanOperand offset (text ++ rest) = .ok (text, rest) := by
  generalize hk : Category.operand = k at h
  induction h generalizing offset with
  | symbol p => exact spanOperand_of_plain p.name_ne_nil p.not_mem_marks hr
  | constant b =>
    exact spanOperand_of_plain (by cases b <;> decide) (not_mem_marks_valueText b) hr
  | @bracketed text s inside =>
    have hs : spanClosing 1 (text ++ ')' :: rest) = some (text, rest) :=
      inside.balanced.spanClosing
    rw [List.append_assoc, List.cons_append, List.singleton_append]
    exact spanOperand_bracket hs
  | negatedSymbol p =>
    exact spanOperand_negation (spanOperand_of_plain p.name_ne_nil p.not_mem_marks hr)
  | negation _ _ ih => exact spanOperand_negation (ih _ hk)
  | single | joined => cases hk

theorem outlineAtom?_joined {left right : List Char} {c : Connective} (h : left ≠ []) :
    outlineAtom? (left ++ c.token.toList ++ right) = none := by
  cases left with
  | nil => exact absurd rfl h
  | cons a left =>
    obtain ⟨d, cs, hc, hd, -⟩ := (Token.connective c).exists_chars
    have htok : c.token.toList = d :: cs := hc
    have hmem : d ∈ left ++ c.token.toList ++ right := by simp [htok]
    exact outlineAtom?_eq_none hmem hd

theorem outlineRest_connective {whole right : List Char} (c : Connective) (h : right ≠ []) :
    outlineRest whole (c.token.toList ++ right) = .ok (c, right) := by
  have hl : leadingToken Token.connectives (c.token.toList ++ right) =
      some (.connective c, right) :=
    leadingToken_eq_some_iff.2 ⟨by cases c <;> decide, rfl⟩
  simp [outlineRest, hl, h]

theorem outline_bracketed {text : List Char} (h : Balanced text) :
    outline ('(' :: text ++ [')']) = .ok (.bracketed text) := by
  have ha : outlineAtom? ('(' :: (text ++ [')'])) = none :=
    outlineAtom?_eq_none (d := ')') (by simp) (by decide)
  have hl : leftmostToken Token.all ('(' :: (text ++ [')'])) =
      some ⟨[], .openingBracket, text ++ [')']⟩ :=
    leftmostToken_chars_append (Token.mem_all .openingBracket) _
  have hs : spanClosing 1 (text ++ [')']) = some (text, []) := h.spanClosing
  rw [List.cons_append, outline_of_compound (List.cons_ne_nil _ _) ha, outlineCompound, hl]
  simp only [hs]

theorem outline_negation {text : List Char} (hn : isSymbol text = false)
    (h : spanOperand 1 text = .ok (text, [])) :
    outline ('~' :: text) = .ok (.negated text) := by
  have ha : outlineAtom? ('~' :: text) = none := by
    rw [outlineAtom?_negation, Symbol.ofName?_ofList_eq_none hn]
    rfl
  have hl : leftmostToken Token.all ('~' :: text) = some ⟨[], .negation, text⟩ :=
    leftmostToken_chars_append (Token.mem_all .negation) _
  rw [outline_of_compound (List.cons_ne_nil _ _) ha, outlineCompound, hl]
  simp only [h]

section
variable {left right : List Char} {c : Connective}

theorem outline_joined_plain (hne : left ≠ []) (h : ∀ a ∈ left, a ∉ marks) (hr : right ≠ []) :
    outline (left ++ c.token.toList ++ right) = .ok (.joined left (.ok (c, right))) := by
  have hl : leftmostToken Token.all (left ++ c.token.toList ++ right) =
      some ⟨left, .connective c, right⟩ := by
    rw [List.append_assoc, leftmostToken_append h, leftmostToken_of_connective]
    simp
  have hne' : left ++ c.token.toList ++ right ≠ [] := by simp [hne]
  rw [outline_of_compound hne' (outlineAtom?_joined hne), outlineCompound, hl]
  simp [hne, hr]

theorem outline_joined_bracketed (h : Balanced left) (hr : right ≠ []) :
    outline ('(' :: left ++ [')'] ++ c.token.toList ++ right) =
      .ok (.joined left (.ok (c, right))) := by
  have ha : outlineAtom? ('(' :: left ++ [')'] ++ c.token.toList ++ right) = none :=
    outlineAtom?_joined (by simp)
  have hl : leftmostToken Token.all ('(' :: left ++ [')'] ++ c.token.toList ++ right) =
      some ⟨[], .openingBracket, left ++ ')' :: (c.token.toList ++ right)⟩ := by
    have := leftmostToken_chars_append (Token.mem_all .openingBracket)
      (left ++ ')' :: (c.token.toList ++ right))
    simpa [Token.chars] using this
  have hs : spanClosing 1 (left ++ ')' :: (c.token.toList ++ right)) =
      some (left, c.token.toList ++ right) := h.spanClosing
  -- The arm for a bracket with nothing behind it is ruled out by this.
  have hne : c.token.toList ++ right ≠ [] := by simp [hr]
  rw [outline_of_compound (by simp) ha, outlineCompound, hl]
  simp only [hs, outlineRest_connective c hr]

theorem outline_joined_negation
    (h : spanOperand 1 (left ++ (c.token.toList ++ right)) = .ok (left, c.token.toList ++ right))
    (hr : right ≠ []) :
    outline ('~' :: left ++ c.token.toList ++ right) =
      .ok (.joined ('~' :: left) (.ok (c, right))) := by
  have ha : outlineAtom? ('~' :: left ++ c.token.toList ++ right) = none :=
    outlineAtom?_joined (by simp)
  have hl : leftmostToken Token.all ('~' :: left ++ c.token.toList ++ right) =
      some ⟨[], .negation, left ++ (c.token.toList ++ right)⟩ := by
    have := leftmostToken_chars_append (Token.mem_all .negation)
      (left ++ (c.token.toList ++ right))
    simpa [Token.chars] using this
  have hne : c.token.toList ++ right ≠ [] := by simp [hr]
  rw [outline_of_compound (by simp) ha, outlineCompound, hl]
  simp only [h, outlineRest_connective c hr]

end

/-- Reading cuts a chain after its first operand, which it goes on to read as it would alone. -/
theorem outline_joined {left right : List Char} {c : Connective} {l : Sentence}
    (h : Derives .operand left l) (hr : right ≠ []) :
    ∃ part, outline (left ++ c.token.toList ++ right) = .ok (.joined part (.ok (c, right))) ∧
      Sentence.tree part = Sentence.tree left := by
  have hf : Follows (c.token.toList ++ right) := .inr ⟨c, right, rfl⟩
  cases h with
  | symbol p => exact ⟨_, outline_joined_plain p.name_ne_nil p.not_mem_marks hr, rfl⟩
  | constant b =>
    have hne : (valueText (some b)).toList ≠ [] := by cases b <;> decide
    exact ⟨_, outline_joined_plain hne (not_mem_marks_valueText b) hr, rfl⟩
  | bracketed inside =>
    refine ⟨_, outline_joined_bracketed inside.balanced hr, ?_⟩
    exact (Sentence.tree_of_bracketed (outline_bracketed inside.balanced)).symm
  | negatedSymbol p =>
    have hs := spanOperand_append_of_derives (.symbol p) hf 1
    exact ⟨_, outline_joined_negation hs hr, rfl⟩
  | negation operand other =>
    have hs := spanOperand_append_of_derives operand hf 1
    exact ⟨_, outline_joined_negation hs hr, rfl⟩

/-- Every derivable text is read, as the sentence it stands for. -/
theorem Derives.tree {k : Category} {text : List Char} {s : Sentence} (h : Derives k text s) :
    Sentence.tree text = .ok s := by
  induction h with
  | symbol p => exact Sentence.tree_of_literal (outline_symbol p)
  | constant b => exact Sentence.tree_of_constant (outline_constant b)
  | bracketed inside ih =>
    rw [Sentence.tree_of_bracketed (outline_bracketed inside.balanced)]
    exact ih
  | negatedSymbol p => exact Sentence.tree_of_literal (outline_negatedSymbol p)
  | negation operand other ih =>
    have hs := spanOperand_append_of_derives operand (.inl rfl) 1
    rw [List.append_nil] at hs
    rw [Sentence.tree_of_negated (outline_negation other hs), ih]
    rfl
  | single _ ih => exact ih
  | joined c operand rest ihl ihr =>
    obtain ⟨part, ho, ht⟩ := outline_joined (c := c) operand rest.ne_nil
    rw [Sentence.tree_of_joined ho, ht, ihl, ihr]
    rfl

/-! ## From reading to the grammar -/

/-- The ways in which a text that is no atom falls into parts. -/
inductive Falls (text : List Char) : Outline → Prop
  | connective {m : TokenMatch} {c : Connective} (cut : leftmostToken Token.all text = some m)
    (token : m.token = .connective c) : Falls text (.joined m.before (.ok (c, m.after)))
  | bracketed {inside : List Char} (parts : text = '(' :: inside ++ [')']) :
    Falls text (.bracketed inside)
  | bracketedFirst {inside rest : List Char} (parts : text = '(' :: inside ++ [')'] ++ rest) :
    Falls text (.joined inside (outlineRest text rest))
  | negated {operand : List Char} (parts : text = '~' :: operand)
    (span : spanOperand 1 operand = .ok (operand, [])) : Falls text (.negated operand)
  | negatedFirst {operand rest : List Char} (parts : text = '~' :: operand ++ rest)
    (shorter : rest ≠ []) (span : spanOperand 1 (operand ++ rest) = .ok (operand, rest)) :
    Falls text (.joined ('~' :: operand) (outlineRest text rest))

theorem falls_of_outlineCompound {text : List Char} {o : Outline}
    (h : outlineCompound text = .ok o) : Falls text o := by
  unfold outlineCompound at h
  split at h
  · split at h <;> cases h
  · next left c right cut =>
    split at h
    · cases h
    · cases h
      exact .connective cut rfl
  · next behind cut =>
    have ht : text = '(' :: behind := append_of_leftmostToken cut
    split at h
    · cases h
    · next inside closed =>
      cases h
      refine .bracketed ?_
      rw [ht, append_of_spanClosing closed, List.cons_append]
    · next inside rest _ closed =>
      cases h
      refine .bracketedFirst ?_
      rw [ht, append_of_spanClosing closed, List.append_assoc]
      rfl
  · next behind cut =>
    have ht : text = '~' :: behind := append_of_leftmostToken cut
    split at h
    · cases h
    · next operand span =>
      cases h
      have hb := append_of_spanOperand span
      rw [List.append_nil] at hb
      subst hb
      exact .negated ht span
    · next operand rest shorter span =>
      cases h
      have hb := append_of_spanOperand span
      subst hb
      exact .negatedFirst ht shorter span
  · cases h

/-- A sentence that is cut nowhere is an operand. -/
theorem derives_operand_of_span {text : List Char} {s : Sentence} {offset : Nat}
    (h : Derives .sentence text s) (hs : spanOperand offset text = .ok (text, [])) :
    Derives .operand text s := by
  cases h with
  | single operand => exact operand
  | @joined left right l r c operand rest =>
    have hf : Follows (c.token.toList ++ right) := .inr ⟨c, right, rfl⟩
    rw [List.append_assoc, spanOperand_append_of_derives operand hf] at hs
    simp only [Except.ok.injEq, Prod.mk.injEq] at hs
    exact absurd hs.2 (by simp [rest.ne_nil])

theorem append_of_outlineRest {whole text right : List Char} {c : Connective}
    (h : outlineRest whole text = .ok (c, right)) : text = c.token.toList ++ right := by
  unfold outlineRest at h
  split at h
  · next found =>
    split at h
    · cases h
    · cases h
      exact append_of_leadingToken found
  · cases h

/-- What is read of a chain comes from reading its parts. -/
theorem tree_of_joined_eq_ok {text left : List Char} {s : Sentence}
    {rest : Except ParseError (Connective × List Char)}
    (ho : outline text = .ok (.joined left rest))
    (h : Sentence.tree text = .ok s) :
    ∃ c right l r, rest = .ok (c, right) ∧ Sentence.tree left = .ok l ∧
      Sentence.tree right = .ok r ∧ s = .binary c l r := by
  cases rest with
  | error e =>
    rw [Sentence.tree_of_joined_error ho, bind_eq_ok] at h
    obtain ⟨l, -, hl⟩ := h
    cases hl
  | ok parts =>
    obtain ⟨c, right⟩ := parts
    rw [Sentence.tree_of_joined ho, bind_eq_ok] at h
    obtain ⟨l, hl, h⟩ := h
    rw [bind_eq_ok] at h
    obtain ⟨r, hr, h⟩ := h
    cases h
    exact ⟨c, right, l, r, rfl, hl, hr, rfl⟩

theorem derives_of_atom {text : List Char} {o : Outline} {s : Sentence}
    (ha : outlineAtom? text = some o) (h : Sentence.tree text = .ok s) :
    Derives .sentence text s := by
  have ho := outline_of_atom ha
  rcases outlineAtom?_cases ha with ⟨b, rfl, ht⟩ | ⟨p, rfl, ht⟩ | ⟨p, rfl, ht⟩
  · rw [Sentence.tree_of_constant ho] at h
    cases h
    exact .single (ht ▸ .constant b)
  · rw [Sentence.tree_of_literal ho] at h
    cases h
    exact .single (ht ▸ .symbol p)
  · rw [Sentence.tree_of_literal ho] at h
    cases h
    exact .single (ht ▸ .negatedSymbol p)

/-- Where the parts of a text are derivable as what they are read as, so is the text. -/
theorem derives_of_falls {text : List Char} {o : Outline} {s : Sentence} (hf : Falls text o)
    (ho : outline text = .ok o) (ha : outlineAtom? text = none) (h : Sentence.tree text = .ok s)
    (parts : ∀ part ∈ o.parts, ∀ t, Sentence.tree part = .ok t → Derives .sentence part t) :
    Derives .sentence text s := by
  cases hf with
  | @connective m c cut token =>
    obtain ⟨c', right, l, r, he, hl, hr, rfl⟩ := tree_of_joined_eq_ok ho h
    cases he
    have dl := parts m.before (by simp [Outline.parts]) l hl
    have dr := parts m.after (by simp [Outline.parts]) r hr
    have ht := append_of_leftmostToken cut
    rw [token] at ht
    rw [ht]
    exact .joined c (derives_operand_of_span dl (spanOperand_before cut 0)) dr
  | @bracketed inside ht =>
    rw [Sentence.tree_of_bracketed ho] at h
    have di := parts inside (by simp [Outline.parts]) s h
    rw [ht]
    exact .single (.bracketed di)
  | @bracketedFirst inside rest ht =>
    obtain ⟨c, right, l, r, he, hl, hr, rfl⟩ := tree_of_joined_eq_ok ho h
    rw [he] at parts
    have di := parts inside (by simp [Outline.parts]) l hl
    have dr := parts right (by simp [Outline.parts]) r hr
    rw [ht, append_of_outlineRest he, ← List.append_assoc]
    exact .joined c (.bracketed di) dr
  | @negated operand ht span =>
    rw [Sentence.tree_of_negated ho, bind_eq_ok] at h
    obtain ⟨t, hop, h⟩ := h
    cases h
    have d := parts operand (by simp [Outline.parts]) t hop
    -- A sign before a symbol would have made the text an atom.
    have other : isSymbol operand = false := by
      rw [ht, outlineAtom?_negation, Option.map_eq_none_iff, Symbol.ofName?_eq_none_iff,
        String.toList_ofList] at ha
      exact ha
    rw [ht]
    exact .single (.negation (derives_operand_of_span d span) other)
  | @negatedFirst operand rest ht shorter span =>
    obtain ⟨c, right, l, r, he, hl, hr, rfl⟩ := tree_of_joined_eq_ok ho h
    rw [he] at parts
    have dl := parts ('~' :: operand) (by simp [Outline.parts]) l hl
    have dr := parts right (by simp [Outline.parts]) r hr
    have hs := spanOperand_negation (spanOperand_operand span 1)
    rw [ht, append_of_outlineRest he, ← List.append_assoc]
    exact .joined c (derives_operand_of_span dl hs) dr

/-- What is read is derivable. The induction is on the length, as parts of a text are shorter. -/
theorem derives_of_tree {text : List Char} {s : Sentence} (h : Sentence.tree text = .ok s) :
    Derives .sentence text s := by
  induction hn : text.length using Nat.strongRecOn generalizing text s with
  | ind n ih =>
    subst hn
    cases ho : outline text with
    | error e =>
      rw [Sentence.tree_of_error ho] at h
      cases h
    | ok o =>
      have parts : ∀ part ∈ o.parts, ∀ t, Sentence.tree part = .ok t →
          Derives .sentence part t := by
        intro part hp t ht
        exact ih _ (length_lt_of_outline ho part hp) ht rfl
      have hne : text ≠ [] := by
        intro he
        rw [he] at ho
        cases ho
      cases ha : outlineAtom? text with
      | some a => exact derives_of_atom ha h
      | none =>
        have hf : Falls text o :=
          falls_of_outlineCompound (by rw [← outline_of_compound hne ha, ho])
        exact derives_of_falls hf ho ha h parts

/-- Reading with a canonical table accepts exactly the texts of the grammar and gives exactly the
sentences they stand for. -/
theorem parse_eq_ok_iff_derives {table : SymbolTable} (h : table.Canonical) (text : String)
    (s : Sentence) :
    (Sentence.parse text table).1 = .ok s ↔ Derives .sentence text.toList s := by
  rw [Sentence.parse_eq_tree h]
  exact ⟨derives_of_tree, Derives.tree⟩

/-- Here `=>` is no token, being the end of `<=>`, and the first sign is before the brackets. -/
theorem parse_negation_biconditional :
    let a : Symbol := ⟨"a", by decide⟩
    let b : Symbol := ⟨"b", by decide⟩
    let table := (∅ : SymbolTable).registerAll [b]
    table.Canonical ∧ (Sentence.parse "~(a&b)<=>~a" table).1 =
      .ok (.binary .biconditional
        (.negation (.binary .conjunction (.literal (.positive a)) (.literal (.positive b))))
        (.literal (Literal.positive a).negate)) := by
  intro a b table
  have h : table.Canonical := SymbolTable.canonical_empty.registerAll [b]
  have inside := Derives.joined .conjunction (.symbol a) (.single (.symbol b))
  have left := Derives.negation (.bracketed inside) (by decide)
  have whole := Derives.joined .biconditional left (.single (.negatedSymbol a))
  have written : "~(a&b)<=>~a".toList =
      '~' :: ('(' :: (a.name.toList ++ Connective.conjunction.token.toList ++ b.name.toList)
        ++ [')']) ++ Connective.biconditional.token.toList ++ '~' :: a.name.toList := by decide
  exact ⟨h, (parse_eq_ok_iff_derives h _ _).2 (written ▸ whole)⟩

end Entailment
