import Entailment.Sentence.Outline

/-!
# Where a text is cut

The characters that a token or a closing bracket begins with are the marks. A text without marks is
passed over whole by the search for the leftmost token, and so is a balanced text by the search for
a closing bracket. An operand that is cut off a text is cut off in the same way when nothing follows
it (`spanOperand_operand`).
-/

namespace Entailment

/-- The characters that tokens and closing brackets begin with. -/
def marks : List Char :=
  ['<', '=', '&', '|', '~', '(', ')']

variable {ts : List Token} {t : Token} {text rest : List Char}

/-! ## Tokens -/

namespace Token

theorem exists_chars (t : Token) : ∃ c cs, t.chars = c :: cs ∧ c ∈ marks ∧ c ≠ ')' := by
  cases t with
  | connective c => cases c <;> exact ⟨_, _, rfl, by decide, by decide⟩
  | negation => exact ⟨_, _, rfl, by decide, by decide⟩
  | openingBracket => exact ⟨_, _, rfl, by decide, by decide⟩

/-- At the beginning of a text stands one token at most. -/
theorem eq_of_prefix {u : Token} (ht : t.chars <+: text) (hu : u.chars <+: text) : t = u := by
  rcases Nat.le_total t.chars.length u.chars.length with hle | hle
  · have hp := List.prefix_of_prefix_length_le ht hu hle
    exact eq_of_chars_isPrefixOf (List.isPrefixOf_iff_prefix.2 hp)
  · have hp := List.prefix_of_prefix_length_le hu ht hle
    exact (eq_of_chars_isPrefixOf (List.isPrefixOf_iff_prefix.2 hp)).symm

end Token

theorem leadingToken_eq_none_iff :
    leadingToken ts text = none ↔ ∀ t ∈ ts, ¬ t.chars <+: text := by
  simp only [leadingToken, Option.map_eq_none_iff, List.find?_eq_none,
    List.isPrefixOf_iff_prefix]

theorem leadingToken_eq_some_iff :
    leadingToken ts text = some (t, rest) ↔ t ∈ ts ∧ text = t.chars ++ rest := by
  constructor
  · intro h
    refine ⟨?_, append_of_leadingToken h⟩
    obtain ⟨u, hu, he⟩ := Option.map_eq_some_iff.1 h
    cases he
    exact List.mem_of_find?_eq_some hu
  · intro h
    obtain ⟨ht, rfl⟩ := h
    cases hl : leadingToken ts (t.chars ++ rest) with
    | none => exact absurd (List.prefix_append _ _) (leadingToken_eq_none_iff.1 hl t ht)
    | some found =>
      obtain ⟨u, rest'⟩ := found
      have happ := append_of_leadingToken hl
      have hu : u.chars <+: t.chars ++ rest := by
        rw [happ]
        exact List.prefix_append _ _
      obtain rfl : t = u := Token.eq_of_prefix (List.prefix_append _ _) hu
      rw [List.append_cancel_left happ]

theorem leadingToken_cons_of_not_mem_marks {c : Char} (h : c ∉ marks) :
    leadingToken ts (c :: text) = none := by
  rw [leadingToken_eq_none_iff]
  intro t _ hp
  obtain ⟨d, cs, ht, hd, -⟩ := t.exists_chars
  rw [ht, List.cons_prefix_cons] at hp
  exact h (hp.1 ▸ hd)

theorem leftmostToken_chars_append (h : t ∈ ts) (rest : List Char) :
    leftmostToken ts (t.chars ++ rest) = some ⟨[], t, rest⟩ := by
  obtain ⟨c, cs, hc, -⟩ := t.exists_chars
  have hl : leadingToken ts (t.chars ++ rest) = some (t, rest) :=
    leadingToken_eq_some_iff.2 ⟨h, rfl⟩
  rw [hc, List.cons_append] at hl ⊢
  rw [leftmostToken, hl]

/-- A text without marks stands before the leftmost token. -/
theorem leftmostToken_append {before : List Char} (h : ∀ c ∈ before, c ∉ marks) :
    leftmostToken ts (before ++ rest) =
      (leftmostToken ts rest).map fun m => { m with before := before ++ m.before } := by
  induction before with
  | nil => simp
  | cons c before ih =>
    obtain ⟨hc, hb⟩ := List.forall_mem_cons.1 h
    rw [List.cons_append, leftmostToken, leadingToken_cons_of_not_mem_marks hc, ih hb]
    simp [Function.comp_def]

/-- No token begins in what stands before the leftmost one. -/
theorem leftmostToken_before {m : TokenMatch} (h : leftmostToken ts text = some m) :
    leftmostToken ts m.before = none := by
  induction text generalizing m with
  | nil => cases h
  | cons c text ih =>
    simp only [leftmostToken] at h
    cases hl : leadingToken ts (c :: text) with
    | some found =>
      rw [hl] at h
      cases h
      rfl
    | none =>
      rw [hl] at h
      obtain ⟨m', hm, rfl⟩ := Option.map_eq_some_iff.1 h
      have hp : c :: m'.before <+: c :: text := by
        rw [append_of_leftmostToken hm, List.append_assoc]
        exact List.prefix_append (c :: m'.before) _
      have hn : leadingToken ts (c :: m'.before) = none := by
        rw [leadingToken_eq_none_iff] at hl ⊢
        exact fun t ht ht' => hl t ht (ht'.trans hp)
      show leftmostToken ts (c :: m'.before) = none
      rw [leftmostToken, hn, ih hm]
      rfl

/-! ## Brackets -/

/-- Inside an open bracket, the search for the closing bracket passes over the text. -/
def Balanced (text : List Char) : Prop :=
  ∀ depth rest, 0 < depth → spanClosing depth (text ++ rest) =
    (spanClosing depth rest).map fun (left, right) => (text ++ left, right)

theorem Balanced.append {text' : List Char} (h : Balanced text) (h' : Balanced text') :
    Balanced (text ++ text') := by
  intro depth rest hd
  rw [List.append_assoc, h depth _ hd, h' depth rest hd]
  cases spanClosing depth rest <;> simp

theorem balanced_cons {c : Char} (ho : c ≠ '(') (hc : c ≠ ')') : Balanced [c] := by
  intro depth rest _
  rw [List.singleton_append, spanClosing, if_neg ho, if_neg hc]
  rfl

theorem balanced_of_forall_ne (h : ∀ c ∈ text, c ≠ '(' ∧ c ≠ ')') : Balanced text := by
  induction text with
  | nil =>
    intro depth rest _
    cases hs : spanClosing depth rest <;> simp [hs]
  | cons c text ih =>
    obtain ⟨hc, ht⟩ := List.forall_mem_cons.1 h
    exact (balanced_cons hc.1 hc.2).append (ih ht)

theorem Balanced.spanClosing (h : Balanced text) :
    spanClosing 1 (text ++ ')' :: rest) = some (text, rest) := by
  rw [h 1 _ Nat.one_pos]
  simp [Entailment.spanClosing]

theorem Balanced.bracketed (h : Balanced text) : Balanced ('(' :: text ++ [')']) := by
  intro depth rest hd
  have hopen : Entailment.spanClosing depth ('(' :: (text ++ ')' :: rest)) =
      (Entailment.spanClosing (depth + 1) (text ++ ')' :: rest)).map
        fun (left, right) => ('(' :: left, right) := by
    rw [Entailment.spanClosing, if_pos rfl]
  have hclose : Entailment.spanClosing (depth + 1) (')' :: rest) =
      (Entailment.spanClosing depth rest).map fun (left, right) => (')' :: left, right) := by
    have hd' : ¬ depth + 1 ≤ 1 := by omega
    rw [Entailment.spanClosing, if_neg (by decide), if_pos rfl, if_neg hd', Nat.add_sub_cancel]
  rw [List.append_assoc, List.cons_append, List.singleton_append, hopen,
    h _ _ (Nat.succ_pos depth), hclose]
  cases Entailment.spanClosing depth rest <;> simp

/-- What follows the closing bracket has no part in finding it. -/
theorem spanClosing_replace {depth : Nat} {left right : List Char}
    (h : spanClosing depth text = some (left, right)) (right' : List Char) :
    spanClosing depth (left ++ ')' :: right') = some (left, right') := by
  induction text generalizing depth left with
  | nil => cases h
  | cons c text ih =>
    rw [spanClosing] at h
    by_cases ho : c = '('
    · rw [if_pos ho] at h
      obtain ⟨⟨l, r⟩, hl, he⟩ := Option.map_eq_some_iff.1 h
      cases he
      rw [List.cons_append, spanClosing, if_pos ho, ih hl]
      rfl
    · rw [if_neg ho] at h
      by_cases hc : c = ')'
      · rw [if_pos hc] at h
        by_cases hd : depth ≤ 1
        · rw [if_pos hd] at h
          cases h
          rw [List.nil_append, spanClosing, if_neg (by decide), if_pos rfl, if_pos hd]
        · rw [if_neg hd] at h
          obtain ⟨⟨l, r⟩, hl, he⟩ := Option.map_eq_some_iff.1 h
          cases he
          rw [List.cons_append, spanClosing, if_neg ho, if_pos hc, if_neg hd, ih hl]
          rfl
      · rw [if_neg hc] at h
        obtain ⟨⟨l, r⟩, hl, he⟩ := Option.map_eq_some_iff.1 h
        cases he
        rw [List.cons_append, spanClosing, if_neg ho, if_neg hc, ih hl]
        rfl

/-! ## Operands -/

variable {offset : Nat} {operand : List Char}

theorem spanOperand_nil : spanOperand offset [] = .ok ([], []) := rfl

theorem spanOperand_negation (h : spanOperand (offset + 1) text = .ok (operand, rest)) :
    spanOperand offset ('~' :: text) = .ok ('~' :: operand, rest) := by
  rw [spanOperand, h]
  rfl

theorem spanOperand_bracket {inside : List Char}
    (h : spanClosing 1 text = some (inside, rest)) :
    spanOperand offset ('(' :: text) = .ok ('(' :: inside ++ [')'], rest) := by
  rw [spanOperand, h]

/-- An operand without sign and bracket goes up to the leftmost token. -/
theorem spanOperand_cons {c : Char} (hn : c ≠ '~') (ho : c ≠ '(') :
    spanOperand offset (c :: text) = match leftmostToken Token.all (c :: text) with
      | some m => .ok (m.before, m.token.chars ++ m.after)
      | none => .ok (c :: text, []) := by
  unfold spanOperand
  split
  · next h =>
    cases h
    exact absurd rfl hn
  · next h =>
    cases h
    exact absurd rfl ho
  · rfl

/-- An operand that was cut off a text is cut off whole by itself. -/
theorem spanOperand_operand (h : spanOperand offset text = .ok (operand, rest)) (offset' : Nat) :
    spanOperand offset' operand = .ok (operand, []) := by
  fun_induction spanOperand offset text generalizing operand offset' with
  | case1 offset text ih =>
    cases hs : spanOperand (offset + 1) text with
    | error e => simp [hs, Except.map] at h
    | ok parts =>
      obtain ⟨operand', rest'⟩ := parts
      simp only [hs, Except.map, Except.ok.injEq, Prod.mk.injEq] at h
      obtain ⟨rfl, rfl⟩ := h
      exact spanOperand_negation (ih hs _)
  | case2 offset text inside rest' hc =>
    cases h
    exact spanOperand_bracket (spanClosing_replace hc [])
  | case3 => cases h
  | case4 offset text hn ho m hm =>
    cases h
    have hb := leftmostToken_before hm
    cases hbefore : m.before with
    | nil => exact spanOperand_nil
    | cons c before =>
      have happ := append_of_leftmostToken hm
      rw [hbefore] at happ hb
      have hn' : c ≠ '~' := fun hc => hn _ (by rw [happ, hc]; rfl)
      have ho' : c ≠ '(' := fun hc => ho _ (by rw [happ, hc]; rfl)
      rw [spanOperand_cons hn' ho', hb]
  | case5 offset text hn ho hm =>
    cases h
    cases text with
    | nil => exact spanOperand_nil
    | cons c text =>
      have hn' : c ≠ '~' := fun hc => hn _ (by rw [hc])
      have ho' : c ≠ '(' := fun hc => ho _ (by rw [hc])
      rw [spanOperand_cons hn' ho', hm]

/-- The text before the leftmost token is an operand by itself. -/
theorem spanOperand_before {m : TokenMatch} (h : leftmostToken Token.all text = some m)
    (offset : Nat) : spanOperand offset m.before = .ok (m.before, []) := by
  have hb := leftmostToken_before h
  cases hbefore : m.before with
  | nil => exact spanOperand_nil
  | cons c before =>
    rw [hbefore] at hb
    have hmark : ∀ t : Token, t.chars = [c] → False := by
      intro t ht
      have hl := leftmostToken_chars_append t.mem_all before
      rw [ht, List.singleton_append, hb] at hl
      cases hl
    have hn : c ≠ '~' := fun hc => hmark .negation (by rw [hc]; rfl)
    have ho : c ≠ '(' := fun hc => hmark .openingBracket (by rw [hc]; rfl)
    rw [spanOperand_cons hn ho, hb]

end Entailment
