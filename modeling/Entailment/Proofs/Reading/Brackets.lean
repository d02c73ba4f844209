import Entailment.Proofs.Reading.Slices

/-!
# The closing bracket

The search for a closing bracket counts the open ones, and never below zero. It ends before that
matters: the first closing bracket that finds at most one open is the answer, so until then the
count is the difference of the opening and closing brackets passed (`finds_spanClosing`). Hence
the offset found is the least one at which the closing brackets are at least as many as the opening
ones.

Closing several brackets is closing some of them and then the others (`spanClosing_add`). So what
stands within a bracket that is closed is nested (`nested_of_spanClosing`).
-/

namespace Entailment

open Text

variable {depth : Nat} {text left right : List Char}

/-! ## Counting brackets -/

theorem count_closing_opening (left : List Char) : ('(' :: left).count ')' = left.count ')' :=
  List.count_cons_of_ne (by decide)

theorem count_opening_closing (left : List Char) : (')' :: left).count '(' = left.count '(' :=
  List.count_cons_of_ne (by decide)

/-- With some brackets open before the text, a closing bracket behind it leaves none open. -/
def Closes (depth : Nat) (left : List Char) : Prop :=
  depth + left.count '(' ≤ left.count ')' + 1

theorem closes_nil : Closes depth [] ↔ depth ≤ 1 :=
  Iff.rfl

theorem closes_opening : Closes depth ('(' :: left) ↔ Closes (depth + 1) left := by
  rw [Closes, Closes, List.count_cons_self, count_closing_opening]
  omega

theorem closes_closing (more : ¬ depth ≤ 1) :
    Closes depth (')' :: left) ↔ Closes (depth - 1) left := by
  rw [Closes, Closes, List.count_cons_self, count_opening_closing]
  omega

theorem closes_cons {c : Char} (ho : c ≠ '(') (hc : c ≠ ')') :
    Closes depth (c :: left) ↔ Closes depth left := by
  rw [Closes, Closes, List.count_cons_of_ne ho, List.count_cons_of_ne hc]

/-- What is to be found in a text: the first closing bracket that leaves none open, or nothing if
there is no such bracket. -/
def FindsClosing (depth : Nat) (text : List Char) : Option (List Char × List Char) → Prop
  | none => ∀ left right, text = left ++ ')' :: right → ¬ Closes depth left
  | some (inside, after) => text = inside ++ ')' :: after ∧ Closes depth inside ∧
    ∀ left right, inside = left ++ ')' :: right → ¬ Closes depth left

/-- What is found behind a character that closes nothing is found in the whole text. -/
theorem FindsClosing.cons {depth' : Nat} {c : Char} {found : Option (List Char × List Char)}
    (shift : ∀ left, Closes depth (c :: left) ↔ Closes depth' left)
    (notHere : c = ')' → ¬ Closes depth []) (h : FindsClosing depth' text found) :
    FindsClosing depth (c :: text) (found.map fun (left, right) => (c :: left, right)) := by
  have later {text : List Char}
      (h : ∀ left right, text = left ++ ')' :: right → ¬ Closes depth' left) :
      ∀ left right, c :: text = left ++ ')' :: right → ¬ Closes depth left := by
    intro left right parts
    cases left with
    | nil =>
      rw [List.nil_append, List.cons.injEq] at parts
      exact notHere parts.1
    | cons d left =>
      rw [List.cons_append, List.cons.injEq] at parts
      obtain ⟨rfl, parts⟩ := parts
      exact mt (shift left).1 (h left right parts)
  cases found with
  | none => exact later h
  | some cut =>
    obtain ⟨rfl, closes, first⟩ := h
    exact ⟨rfl, (shift _).2 closes, later first⟩

/-- No other closing bracket that leaves none open stands before the one found. -/
theorem FindsClosing.isPrefix {inside after : List Char}
    (h : FindsClosing depth text (some (inside, after))) (parts : text = left ++ ')' :: right)
    (closes : Closes depth left) : inside <+: left := by
  obtain ⟨found, -, first⟩ := h
  rcases List.append_eq_append_iff.1 (found.symm.trans parts) with ⟨between, rfl, -⟩ |
    ⟨between, same, behind⟩
  · exact List.prefix_append inside between
  · cases between with
    | nil =>
      rw [List.append_nil] at same
      exact same ▸ List.prefix_rfl
    | cons c between =>
      rw [List.cons_append, List.cons.injEq] at behind
      obtain ⟨rfl, -⟩ := behind
      exact absurd closes (first left between same)

theorem finds_spanClosing (depth : Nat) (text : List Char) :
    FindsClosing depth text (spanClosing depth text) := by
  fun_induction spanClosing depth text with
  | case1 depth =>
    intro left right parts
    cases left <;> cases parts
  | case2 depth text ih =>
    refine ih.cons (fun left => closes_opening) fun closing => ?_
    cases closing
  | case3 depth text last =>
    refine ⟨rfl, closes_nil.2 last, ?_⟩
    intro left right parts
    cases left <;> cases parts
  | case4 depth text more _ ih =>
    exact ih.cons (fun left => closes_closing more) fun _ => mt closes_nil.1 more
  | case5 depth c text ho hc ih =>
    exact ih.cons (fun left => closes_cons ho hc) fun closing => absurd closing hc

/-! ## Nested brackets -/

/-- Every bracket of the text is matched within it. -/
inductive Nested : List Char → Prop
  | nil : Nested []
  | cons {c : Char} {text : List Char} (ho : c ≠ '(') (hc : c ≠ ')') (rest : Nested text) :
    Nested (c :: text)
  | bracketed {inside text : List Char} (within : Nested inside) (rest : Nested text) :
    Nested ('(' :: inside ++ ')' :: text)

theorem Nested.balanced (h : Nested text) : Balanced text := by
  induction h with
  | nil => exact balanced_of_forall_ne fun c hc => absurd hc List.not_mem_nil
  | cons ho hc _ rest => exact (balanced_cons ho hc).append rest
  | @bracketed inside text _ _ within rest =>
    have parts : '(' :: inside ++ ')' :: text = ('(' :: inside ++ [')']) ++ text := by simp
    rw [parts]
    exact within.bracketed.append rest

theorem Nested.count_eq (h : Nested text) : text.count '(' = text.count ')' := by
  induction h with
  | nil => rfl
  | cons ho hc _ rest => rw [List.count_cons_of_ne ho, List.count_cons_of_ne hc, rest]
  | bracketed _ _ within rest =>
    rw [List.cons_append, List.count_cons_self, count_closing_opening, List.count_append,
      List.count_append, count_opening_closing, List.count_cons_self, within, rest]
    omega

/-- Nowhere in a nested text have more brackets been closed than opened. -/
theorem Nested.count_le_of_prefix (h : Nested text) (part : left <+: text) :
    left.count ')' ≤ left.count '(' := by
  induction h generalizing left with
  | nil =>
    rw [List.prefix_nil.1 part]
    exact Nat.le_refl _
  | cons ho hc _ rest =>
    rcases List.prefix_cons_iff.1 part with rfl | ⟨left, rfl, shorter⟩
    · exact Nat.le_refl _
    · rw [List.count_cons_of_ne ho, List.count_cons_of_ne hc]
      exact rest shorter
  | @bracketed inside text nested _ within rest =>
    rcases List.prefix_cons_iff.1 part with rfl | ⟨left, rfl, shorter⟩
    · exact Nat.le_refl _
    rw [count_closing_opening, List.count_cons_self]
    -- The part ends within the bracket, or goes beyond it.
    rcases List.prefix_or_prefix_of_prefix shorter (List.prefix_append inside _) with
      before | ⟨left, rfl⟩
    · have := within before
      omega
    · have := nested.count_eq
      have behind := (List.prefix_append_right_inj inside).1 shorter
      rcases List.prefix_cons_iff.1 behind with rfl | ⟨left, rfl, further⟩
      · simp only [List.append_nil]
        omega
      · have := rest further
        rw [List.count_append, List.count_append, count_opening_closing, List.count_cons_self]
        omega

/-- To close several brackets is to close some of them first, and then the others. -/
theorem spanClosing_add {a b : Nat} (ha : 0 < a) (hb : 0 < b) (text : List Char) :
    spanClosing (a + b) text = (spanClosing a text).bind fun (left, right) =>
      (spanClosing b right).map fun (left', right') => (left ++ ')' :: left', right') := by
  have first (c : Char) (found : Option (List Char × List Char)) :
      (found.bind fun (left, right) => (spanClosing b right).map
          fun (left', right') => (left ++ ')' :: left', right')).map
        (fun (left, right) => (c :: left, right)) =
      (found.map fun (left, right) => (c :: left, right)).bind fun (left, right) =>
        (spanClosing b right).map fun (left', right') => (left ++ ')' :: left', right') := by
    cases found with
    | none => rfl
    | some cut =>
      obtain ⟨left, right⟩ := cut
      simp only [Option.map_some, Option.bind_some]
      cases spanClosing b right <;> rfl
  fun_induction spanClosing a text with
  | case1 => rfl
  | case2 a text ih =>
    rw [spanClosing, if_pos rfl, Nat.add_right_comm, ih (Nat.succ_pos a), first]
  | case3 a text last =>
    have more : ¬ a + b ≤ 1 := by omega
    have others : a + b - 1 = b := by omega
    rw [spanClosing, if_neg (by decide), if_pos rfl, if_neg more, others]
    rfl
  | case4 a text more _ ih =>
    have more' : ¬ a + b ≤ 1 := by omega
    have others : a + b - 1 = a - 1 + b := by omega
    rw [spanClosing, if_neg (by decide), if_pos rfl, if_neg more', others, ih (by omega), first]
  | case5 a c text ho hc ih => rw [spanClosing, if_neg ho, if_neg hc, ih ha, first]

/-- The text before the bracket that closes one open bracket is nested. A bracket in it is closed
first, and what is left of the search is shorter. -/
theorem nested_of_spanClosing (h : spanClosing 1 text = some (left, right)) : Nested left := by
  induction hn : text.length using Nat.strongRecOn generalizing text left right with
  | ind n ih =>
    cases text with
    | nil => cases h
    | cons c text =>
      rw [List.length_cons] at hn
      rw [spanClosing] at h
      split at h
      · next opening =>
        obtain ⟨⟨inside, after⟩, found, he⟩ := Option.map_eq_some_iff.1 h
        rw [spanClosing_add Nat.one_pos Nat.one_pos] at found
        obtain ⟨⟨inner, rest⟩, within, found⟩ := Option.bind_eq_some_iff.1 found
        obtain ⟨⟨outer, last⟩, behind, parts⟩ := Option.map_eq_some_iff.1 found
        cases parts
        cases he
        have shorter := congrArg List.length (append_of_spanClosing within)
        rw [List.length_append, List.length_cons] at shorter
        rw [opening]
        exact .bracketed (ih _ (by omega) within rfl) (ih _ (by omega) behind rfl)
      · next ho =>
        split at h
        · rw [if_pos (Nat.le_refl 1)] at h
          cases h
          exact .nil
        · next hc =>
          obtain ⟨⟨inside, after⟩, found, he⟩ := Option.map_eq_some_iff.1 h
          cases he
          exact .cons ho hc (ih _ (by omega) found rfl)

/-- A bracket is closed behind a nested text. -/
theorem spanClosing_eq_some_iff : spanClosing 1 text = some (left, right) ↔
    text = left ++ ')' :: right ∧ Nested left := by
  constructor
  · intro h
    exact ⟨append_of_spanClosing h, nested_of_spanClosing h⟩
  · rintro ⟨rfl, nested⟩
    exact nested.balanced.spanClosing

/-! ## The least offset -/

/-- The byte offset lies between two characters of the text, or at one of its ends. -/
def IsBoundary (text : List Char) (offset : Nat) : Prop :=
  ∃ before rest, text = before ++ rest ∧ byteCount before = offset

/-- A closing bracket stands at a byte offset, and from the first offset up to and including it
there are at least as many closing as opening brackets. -/
def ClosesAt (text : List Char) (start offset : Nat) : Prop :=
  ∃ before inside after, text = before ++ (inside ++ ')' :: after) ∧
    byteCount before = start ∧ byteCount (before ++ inside) = offset ∧
    (inside ++ [')']).count '(' ≤ (inside ++ [')']).count ')'

theorem ClosesAt.isBoundary {start offset : Nat} (h : ClosesAt text start offset) :
    IsBoundary text start := by
  obtain ⟨before, inside, after, parts, size, -⟩ := h
  exact ⟨before, _, parts, size⟩

theorem closes_zero : Closes 0 left ↔ (left ++ [')']).count '(' ≤ (left ++ [')']).count ')' := by
  have opening : (left ++ [')']).count '(' = left.count '(' := by simp
  have closing : (left ++ [')']).count ')' = left.count ')' + 1 := by simp
  rw [Closes, opening, closing, Nat.zero_add]

theorem closesAt_append {before rest : List Char} {offset : Nat} :
    ClosesAt (before ++ rest) (byteCount before) offset ↔
      ∃ inside after, rest = inside ++ ')' :: after ∧ byteCount (before ++ inside) = offset ∧
        Closes 0 inside := by
  constructor
  · rintro ⟨before', inside, after, same, size, ends, counts⟩
    obtain ⟨rfl, rfl⟩ := append_inj_of_byteCount_eq same size.symm
    exact ⟨inside, after, rfl, ends, closes_zero.2 counts⟩
  · rintro ⟨inside, after, rfl, ends, closes⟩
    exact ⟨before, inside, after, rfl, rfl, ends, closes_zero.1 closes⟩

section
variable {start j : Nat}

theorem closingOffset?_eq_none_iff : closingOffset? text start = none ↔
    ¬ IsBoundary text start := by
  rw [closingOffset?, Option.map_eq_none_iff, Option.eq_none_iff_forall_ne_some, Prod.forall]
  constructor
  · rintro h ⟨before, rest, rfl, rfl⟩
    exact h before rest (splitAtByte_eq_some_iff.2 ⟨rfl, rfl⟩)
  · intro h before rest cut
    obtain ⟨rfl, rfl⟩ := splitAtByte_eq_some_iff.1 cut
    exact h ⟨before, rest, rfl, rfl⟩

theorem isBoundary_of_closingOffset? {answer : Except ParseError Nat}
    (h : closingOffset? text start = some answer) : IsBoundary text start := by
  apply Classical.byContradiction
  intro off
  rw [closingOffset?_eq_none_iff.2 off] at h
  cases h

/-- The answer at a boundary: the least offset at which a bracket closes, or that there is none. -/
theorem closingOffset?_of_isBoundary (h : IsBoundary text start) :
    (∃ j, closingOffset? text start = some (.ok j) ∧
      ClosesAt text start j ∧ ∀ i, ClosesAt text start i → j ≤ i) ∨
    (closingOffset? text start = some (.error (.unmatchedBracket start)) ∧
      ∀ j, ¬ ClosesAt text start j) := by
  obtain ⟨before, rest, rfl, rfl⟩ := h
  have finds := finds_spanClosing 0 rest
  rw [closingOffset?_append]
  cases found : spanClosing 0 rest with
  | none =>
    rw [found] at finds
    refine .inr ⟨rfl, fun j hj => ?_⟩
    obtain ⟨inside, after, parts, -, closes⟩ := closesAt_append.1 hj
    exact finds inside after parts closes
  | some cut =>
    obtain ⟨inside, after⟩ := cut
    rw [found] at finds
    refine .inl ⟨_, rfl, closesAt_append.2 ⟨inside, after, finds.1, rfl, finds.2.1⟩, ?_⟩
    intro i hi
    obtain ⟨inside', after', parts, rfl, closes⟩ := closesAt_append.1 hi
    obtain ⟨between, rfl⟩ := finds.isPrefix parts closes
    simp only [byteCount_append]
    omega

theorem closingOffset?_eq_ok_iff : closingOffset? text start = some (.ok j) ↔
    ClosesAt text start j ∧ ∀ i, ClosesAt text start i → j ≤ i := by
  constructor
  · intro h
    have boundary := isBoundary_of_closingOffset? h
    rcases closingOffset?_of_isBoundary boundary with ⟨i, found, least⟩ | ⟨found, -⟩
    · rw [h] at found
      cases found
      exact least
    · rw [h] at found
      cases found
  · rintro ⟨closes, least⟩
    rcases closingOffset?_of_isBoundary closes.isBoundary with ⟨i, found, hi, first⟩ | ⟨-, nowhere⟩
    · rw [found, Nat.le_antisymm (first j closes) (least i hi)]
    · exact absurd closes (nowhere j)

theorem closingOffset?_eq_error_iff {e : ParseError} :
    closingOffset? text start = some (.error e) ↔
      e = .unmatchedBracket start ∧ IsBoundary text start ∧ ∀ j, ¬ ClosesAt text start j := by
  constructor
  · intro h
    have boundary := isBoundary_of_closingOffset? h
    rcases closingOffset?_of_isBoundary boundary with ⟨i, found, -⟩ | ⟨found, nowhere⟩
    · rw [h] at found
      cases found
    · rw [h] at found
      cases found
      exact ⟨rfl, boundary, nowhere⟩
  · rintro ⟨rfl, boundary, nowhere⟩
    rcases closingOffset?_of_isBoundary boundary with ⟨i, -, hi, -⟩ | ⟨found, -⟩
    · exact absurd hi (nowhere i)
    · exact found

/-- A bracket is closed at the end of a nested text behind it. -/
theorem closingOffset?_bracket_eq_ok_iff {before behind : List Char} :
    closingOffset? (before ++ '(' :: behind) (byteCount before) = some (.ok j) ↔
      ∃ inside after, behind = inside ++ ')' :: after ∧ Nested inside ∧
        byteCount (before ++ '(' :: inside) = j := by
  rw [closingOffset?_bracket]
  constructor
  · intro h
    cases found : spanClosing 1 behind with
    | none =>
      rw [found] at h
      cases h
    | some cut =>
      obtain ⟨inside, after⟩ := cut
      obtain ⟨parts, nested⟩ := spanClosing_eq_some_iff.1 found
      rw [found] at h
      cases h
      exact ⟨inside, after, parts, nested, rfl⟩
  · rintro ⟨inside, after, parts, nested, rfl⟩
    rw [spanClosing_eq_some_iff.2 ⟨parts, nested⟩]

/-- A part of the text from a bracket on that ends before the bracket is closed leaves it open. -/
theorem count_lt_of_closingOffset? {before behind opened rest : List Char}
    (h : closingOffset? (before ++ '(' :: behind) (byteCount before) = some (.ok j))
    (parts : '(' :: behind = opened ++ rest) (nonempty : opened ≠ [])
    (short : byteCount before + byteCount opened ≤ j) :
    opened.count ')' < opened.count '(' := by
  obtain ⟨inside, after, rfl, nested, rfl⟩ := closingOffset?_bracket_eq_ok_iff.1 h
  rw [byteCount_append, Nat.add_le_add_iff_left] at short
  have part : opened <+: '(' :: inside := by
    have whole : '(' :: inside <+: opened ++ rest := parts ▸ List.prefix_append _ (')' :: after)
    rcases List.prefix_or_prefix_of_prefix (List.prefix_append opened rest) whole with
      part | ⟨more, rfl⟩
    · exact part
    · -- There is no room for more than what is inside.
      rw [byteCount_append] at short
      have nothing : more = [] := byteCount_eq_zero_iff.1 (by omega)
      subst nothing
      exact ⟨[], by simp⟩
  obtain rfl | ⟨left, rfl, within⟩ := List.prefix_cons_iff.1 part
  · exact absurd rfl nonempty
  · have := nested.count_le_of_prefix within
    rw [count_closing_opening, List.count_cons_self]
    omega

end

/-- The search for a closing bracket has an answer at the offsets that cut the text. It is the least
offset of a closing bracket up to which at least as many brackets were closed as opened, if there is
one, and otherwise the offset at which the search began is unmatched. If a bracket stands there, the
text up to the one that closes it is nested, and at no point before is it closed. -/
theorem closingOffset?_least (text : List Char) (start : Nat) :
    (closingOffset? text start = none ↔ ¬ IsBoundary text start) ∧
    (∀ j, closingOffset? text start = some (.ok j) ↔
      ClosesAt text start j ∧ ∀ i, ClosesAt text start i → j ≤ i) ∧
    (∀ e, closingOffset? text start = some (.error e) ↔
      e = .unmatchedBracket start ∧ IsBoundary text start ∧ ∀ j, ¬ ClosesAt text start j) ∧
    ∀ before behind, text = before ++ '(' :: behind → byteCount before = start → ∀ j,
      (closingOffset? text start = some (.ok j) ↔ ∃ inside after,
        behind = inside ++ ')' :: after ∧ Nested inside ∧
        byteCount (before ++ '(' :: inside) = j) ∧
      (closingOffset? text start = some (.ok j) → ∀ opened rest, '(' :: behind = opened ++ rest →
        opened ≠ [] → start + byteCount opened ≤ j → opened.count ')' < opened.count '(') := by
  refine ⟨closingOffset?_eq_none_iff, fun j => closingOffset?_eq_ok_iff,
    fun e => closingOffset?_eq_error_iff, ?_⟩
  rintro before behind rfl rfl j
  exact ⟨closingOffset?_bracket_eq_ok_iff, fun h opened rest => count_lt_of_closingOffset? h⟩

example : closingOffset? "é)(a)".toList 2 = some (.ok 2) := by
  decide

end Entailment
