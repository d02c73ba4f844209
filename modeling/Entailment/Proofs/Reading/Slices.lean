import Entailment.Proofs.Reading.LeftmostToken
import Entailment.Proofs.Reading.Occurrences

/-!
# Reading by byte offsets

The outline of a text can be computed from byte offsets: where the best token stands, where a
bracket is closed, where an operand ends. The parts are then slices of the text, and taking a slice
fails if an offset lies within a character, behind the end of the text or before the other offset.

No slice ever fails (`outlineAt_eq`). All offsets are sums of sizes of texts that make up the
beginning of the text, and that is what the lemmas on the way say of each of them. Every part is
shorter than the text in bytes too, so reading by byte offsets ends, and it is reading.
-/

namespace Entailment

open Text

namespace Text

variable {first last : Nat} {text left middle right : List Char}

/-- The part of a text from one byte offset up to another. -/
def slice? (first last : Nat) (text : List Char) : Option (List Char) := do
  let (front, _) ← splitAtByte last text
  let (_, middle) ← splitAtByte first front
  return middle

/-- There is a part from one offset to another just if they cut the text in this order. -/
theorem slice?_eq_some_iff : slice? first last text = some middle ↔
    ∃ left right, left ++ middle ++ right = text ∧ byteCount left = first ∧
      byteCount (left ++ middle) = last := by
  simp only [slice?, Option.bind_eq_bind, Option.bind_eq_some_iff, Prod.exists,
    splitAtByte_eq_some_iff, Option.pure_def, Option.some.injEq]
  constructor
  · rintro ⟨front, right, ⟨rfl, rfl⟩, left, _, ⟨rfl, rfl⟩, rfl⟩
    exact ⟨left, right, rfl, rfl, rfl⟩
  · rintro ⟨left, right, rfl, rfl, rfl⟩
    exact ⟨left ++ middle, right, ⟨rfl, rfl⟩, left, middle, ⟨rfl, rfl⟩, rfl⟩

theorem slice?_left (left right : List Char) :
    slice? 0 (byteCount left) (left ++ right) = some left :=
  slice?_eq_some_iff.2 ⟨[], right, rfl, rfl, rfl⟩

theorem slice?_right (left right : List Char) :
    slice? (byteCount left) (byteCount (left ++ right)) (left ++ right) = some right :=
  slice?_eq_some_iff.2 ⟨left, [], by simp, rfl, rfl⟩

end Text

/-! ## The outline by byte offsets -/

/-- The byte offset behind an operand without sign and bracket. It goes up to the next token; `rest`
is the text from its beginning on. -/
def plainEnd (text rest : List Char) (start : Nat) : Nat :=
  match bestPlace Token.all rest with
  | some (offset, _) => start + offset
  | none => byteCount text

/-- The byte offset behind the operand that begins at a byte offset. -/
def operandEnd? (text : List Char) (start : Nat) : Option (Except ParseError Nat) :=
  match _cut : slice? start (byteCount text) text with
  | none => none
  | some ('(' :: _) => do return (← closingOffset? text start).map (· + 1)
  | some ('~' :: _) => operandEnd? text (start + 1)
  | some rest => some (.ok (plainEnd text rest start))
termination_by byteCount text - start
decreasing_by
  obtain ⟨left, right, parts, size, -⟩ := slice?_eq_some_iff.1 ‹slice? _ _ _ = _›
  have := congrArg byteCount parts
  have := Char.utf8Size_pos '~'
  simp only [byteCount_append, byteCount_cons] at *
  omega

/-- The connective at a byte offset and the operand behind it. -/
def outlineRestAt (text : List Char) (stop : Nat) :
    Option (Except ParseError (Connective × List Char)) := do
  let rest ← slice? stop (byteCount text) text
  match bestPlace Token.connectives rest with
  | some (0, .connective c) =>
    let right ← slice? (byteCount c.token.toList) (byteCount rest) rest
    return if right = [] then .error (.missingOperand (String.ofList text)) else .ok (c, right)
  | _ => return .error (.noOperator (String.ofList rest))

/-- The outline of a text with its best token, a connective, at a byte offset. -/
def connectiveOutlineAt (text : List Char) (offset : Nat) (c : Connective) :
    Option (Except ParseError Outline) := do
  let left ← slice? 0 offset text
  let right ← slice? (offset + byteCount c.token.toList) (byteCount text) text
  return if left = [] ∨ right = [] then .error (.missingOperand (String.ofList text))
    else .ok (.joined left (.ok (c, right)))

/-- The outline of a text that begins with a bracket. -/
def bracketOutlineAt (text : List Char) : Option (Except ParseError Outline) := do
  match ← closingOffset? text 0 with
  | .error e => return .error e
  | .ok close =>
    let inside ← slice? 1 close text
    if close + 1 = byteCount text then return .ok (.bracketed inside)
    else return .ok (.joined inside (← outlineRestAt text (close + 1)))

/-- The outline of a text that begins with a negation sign. -/
def negationOutlineAt (text : List Char) : Option (Except ParseError Outline) := do
  match ← operandEnd? text 1 with
  | .error e => return .error e
  | .ok stop =>
    if stop = byteCount text then return .ok (.negated (← slice? 1 (byteCount text) text))
    else return .ok (.joined (← slice? 0 stop text) (← outlineRestAt text stop))

/-- The outline of a text that is no atom. -/
def outlineCompoundAt (text : List Char) : Option (Except ParseError Outline) :=
  match bestPlace Token.all text with
  | none => some (if text.all Text.isAlphanumeric then .error (.notSymbol (String.ofList text))
    else .error (.noOperator (String.ofList text)))
  | some (offset, .connective c) => connectiveOutlineAt text offset c
  | some (0, .openingBracket) => bracketOutlineAt text
  | some (0, .negation) => negationOutlineAt text
  | some (_, _) => some (.error (.noOperator (String.ofList text)))

/-- The outline of a text, if every slice can be taken. -/
def outlineAt (text : List Char) : Option (Except ParseError Outline) :=
  if text = [] then some (.error .empty)
  else match outlineAtom? text with
    | some atom => some (.ok atom)
    | none => outlineCompoundAt text

/-! ## No slice fails -/

variable {text : List Char}

theorem Token.exists_connective {t : Token} (h : t ∈ Token.connectives) :
    ∃ c, t = .connective c := by
  simp only [Token.connectives, List.mem_cons, List.not_mem_nil, or_false] at h
  rcases h with rfl | rfl | rfl | rfl <;> exact ⟨_, rfl⟩

theorem bestPlace_of_leadingToken {tokens : List Token} {t : Token} {after : List Char}
    (h : leadingToken tokens text = some (t, after)) : bestPlace tokens text = some (0, t) := by
  obtain ⟨ht, parts⟩ := leadingToken_eq_some_iff.1 h
  exact (finds_bestPlace tokens text).unique (.of_begins ht (parts ▸ List.prefix_append _ after))

/-- A token at offset zero is one that the text begins with. -/
theorem bestPlace_of_leadingToken_eq_none {tokens : List Token} {place : Nat × Token}
    (h : leadingToken tokens text = none) (hp : bestPlace tokens text = some place) :
    place.1 ≠ 0 := by
  intro hz
  have found := finds_bestPlace tokens text
  rw [hp] at found
  obtain ⟨ht, stands, -⟩ := found
  rw [hz, Token.occursAt_zero] at stands
  exact leadingToken_eq_none_iff.1 h _ ht stands

/-- What follows an operand is cut where the operand ends. -/
theorem outlineRestAt_eq (left rest : List Char) :
    outlineRestAt (left ++ rest) (byteCount left) = some (outlineRest (left ++ rest) rest) := by
  simp only [outlineRestAt, slice?_right, Option.bind_eq_bind, Option.bind_some, outlineRest]
  cases hl : leadingToken Token.connectives rest with
  | some found =>
    obtain ⟨t, right⟩ := found
    obtain ⟨ht, rfl⟩ := leadingToken_eq_some_iff.1 hl
    obtain ⟨c, rfl⟩ := Token.exists_connective ht
    have behind : slice? (byteCount c.token.toList) (byteCount (c.token.toList ++ right))
        (c.token.toList ++ right) = some right := slice?_right _ _
    simp only [bestPlace_of_leadingToken hl]
    simp only [Token.chars, behind, Option.bind_some, Option.pure_def]
  | none =>
    cases hp : bestPlace Token.connectives rest with
    | none => rfl
    | some place =>
      obtain ⟨offset, t⟩ := place
      obtain ⟨n, rfl⟩ :=
        Nat.exists_eq_succ_of_ne_zero (bestPlace_of_leadingToken_eq_none hl hp)
      rfl

/-- The closing bracket is looked for in what follows the offset. -/
theorem closingOffset?_append (before rest : List Char) :
    closingOffset? (before ++ rest) (byteCount before) = some (match spanClosing 0 rest with
      | some (inside, _) => .ok (byteCount (before ++ inside))
      | none => .error (.unmatchedBracket (byteCount before))) := by
  have cut : splitAtByte (byteCount before) (before ++ rest) = some (before, rest) :=
    splitAtByte_eq_some_iff.2 ⟨rfl, rfl⟩
  rw [closingOffset?, cut, Option.map_some]
  cases found : spanClosing 0 rest with
  | none => simp only [found]
  | some parts => simp only [found, byteCount_append]

/-- A bracket is closed where the search from behind it says. -/
theorem closingOffset?_bracket (left behind : List Char) :
    closingOffset? (left ++ '(' :: behind) (byteCount left) =
      some (match spanClosing 1 behind with
        | some (inside, _) => .ok (byteCount (left ++ '(' :: inside))
        | none => .error (.unmatchedBracket (byteCount left))) := by
  rw [closingOffset?_append, spanClosing, if_pos rfl]
  cases spanClosing 1 behind <;> rfl

/-- An operand is read off what follows its beginning. -/
theorem operandEnd?_eq_bind (text : List Char) (start : Nat) :
    operandEnd? text start = (slice? start (byteCount text) text).bind fun
      | '(' :: _ => do return (← closingOffset? text start).map (· + 1)
      | '~' :: _ => operandEnd? text (start + 1)
      | rest => some (.ok (plainEnd text rest start)) := by
  fun_cases operandEnd? text start with
  | case1 failed => rw [failed, Option.bind_none]
  | case2 _ cut =>
    rw [cut]
    rfl
  | case3 _ cut =>
    rw [cut]
    rfl
  | case4 rest notOpen notSign cut =>
    rw [cut, Option.bind_some]
    split
    · exact absurd rfl (notOpen _)
    · exact absurd rfl (notSign _)
    · rfl

theorem plainEnd_eq (left rest : List Char) :
    plainEnd (left ++ rest) rest (byteCount left) = match leftmostToken Token.all rest with
      | some m => byteCount (left ++ m.before)
      | none => byteCount (left ++ rest) := by
  rw [plainEnd, bestPlace_eq]
  cases leftmostToken Token.all rest with
  | none => rfl
  | some m =>
    show byteCount left + m.offset = byteCount (left ++ m.before)
    rw [byteCount_append]
    rfl

/-- An operand ends where its span ends. The induction is that of the span, and what is passed over
is moved to the left. -/
theorem operandEnd?_eq (left rest : List Char) :
    operandEnd? (left ++ rest) (byteCount left) =
      some ((spanOperand (byteCount left) rest).map fun (operand, _) =>
        byteCount (left ++ operand)) := by
  generalize hn : byteCount left = offset
  fun_induction spanOperand offset rest generalizing left with
  | case1 offset rest ih =>
    have moved : left ++ '~' :: rest = (left ++ ['~']) ++ rest := by simp
    have size : byteCount (left ++ ['~']) = offset + 1 := by
      rw [byteCount_append, hn]
      rfl
    have step : operandEnd? (left ++ '~' :: rest) offset =
        operandEnd? (left ++ '~' :: rest) (offset + 1) := by
      rw [operandEnd?_eq_bind, ← hn, slice?_right]
      rfl
    rw [step, moved, ih _ size]
    cases spanOperand (offset + 1) rest with
    | error e => rfl
    | ok parts =>
      show some (Except.ok (byteCount (left ++ ['~'] ++ parts.1))) =
        some (Except.ok (byteCount (left ++ '~' :: parts.1)))
      rw [List.append_assoc]
      rfl
  | case2 offset rest inside rest' closed =>
    subst hn
    have size : byteCount (left ++ ('(' :: inside ++ [')'])) =
        byteCount (left ++ '(' :: inside) + 1 := by
      rw [← List.append_assoc, byteCount_append]
      rfl
    rw [operandEnd?_eq_bind, slice?_right, Option.bind_some]
    simp only [closingOffset?_bracket, closed]
    exact congrArg (some ∘ Except.ok) size.symm
  | case3 offset rest unclosed =>
    subst hn
    rw [operandEnd?_eq_bind, slice?_right, Option.bind_some]
    simp only [closingOffset?_bracket, unclosed]
    rfl
  | case4 offset rest notSign notOpen m found =>
    subst hn
    rw [operandEnd?_eq_bind, slice?_right, Option.bind_some]
    split
    · exact absurd rfl (notOpen _)
    · exact absurd rfl (notSign _)
    · rw [plainEnd_eq, found]
      rfl
  | case5 offset rest notSign notOpen found =>
    subst hn
    rw [operandEnd?_eq_bind, slice?_right, Option.bind_some]
    split
    · exact absurd rfl (notOpen _)
    · exact absurd rfl (notSign _)
    · rw [plainEnd_eq, found]
      rfl

theorem connectiveOutlineAt_eq {c : Connective} {before after : List Char}
    (cut : leftmostToken Token.all text = some ⟨before, .connective c, after⟩) :
    connectiveOutlineAt text (byteCount before) c = some (outlineCompound text) := by
  have parts : text = before ++ (c.token.toList ++ after) := by
    rw [append_of_leftmostToken cut, List.append_assoc]
    rfl
  have left : slice? 0 (byteCount before) text = some before := parts ▸ slice?_left before _
  have right : slice? (byteCount before + byteCount c.token.toList) (byteCount text) text =
      some after := by
    rw [parts, ← List.append_assoc, ← byteCount_append]
    exact slice?_right _ after
  simp only [connectiveOutlineAt, left, right, outlineCompound, cut, Option.bind_eq_bind,
    Option.bind_some, Option.pure_def]

theorem bracketOutlineAt_eq {behind : List Char}
    (cut : leftmostToken Token.all text = some ⟨[], .openingBracket, behind⟩) :
    bracketOutlineAt text = some (outlineCompound text) := by
  have begins : text = '(' :: behind := append_of_leftmostToken cut
  have close := closingOffset?_bracket [] behind
  simp only [List.nil_append, byteCount_nil, ← begins] at close
  simp only [bracketOutlineAt, close, outlineCompound, cut]
  cases closed : spanClosing 1 behind with
  | none => rfl
  | some parts =>
    obtain ⟨inside, rest⟩ := parts
    have whole : text = ('(' :: inside ++ [')']) ++ rest := by
      rw [begins, append_of_spanClosing closed]
      simp
    have size : byteCount ('(' :: inside ++ [')']) = byteCount ('(' :: inside) + 1 :=
      byteCount_append _ _
    have part : slice? 1 (byteCount ('(' :: inside)) text = some inside :=
      slice?_eq_some_iff.2 ⟨['('], ')' :: rest, by simp [whole], rfl, rfl⟩
    have later := outlineRestAt_eq ('(' :: inside ++ [')']) rest
    rw [← whole, size] at later
    simp only [Option.bind_eq_bind, Option.bind_some, part, later, Option.pure_def]
    have ends : byteCount ('(' :: inside) + 1 = byteCount text ↔ rest = [] := by
      rw [whole, ← size, byteCount_eq_byteCount_append_iff]
    cases rest with
    | nil => rw [if_pos (ends.2 rfl)]
    | cons c rest => rw [if_neg fun same => List.cons_ne_nil c rest (ends.1 same)]

theorem negationOutlineAt_eq {behind : List Char}
    (cut : leftmostToken Token.all text = some ⟨[], .negation, behind⟩) :
    negationOutlineAt text = some (outlineCompound text) := by
  have begins : text = ['~'] ++ behind := append_of_leftmostToken cut
  have stop := operandEnd?_eq ['~'] behind
  have sign : byteCount ['~'] = 1 := rfl
  rw [← begins, sign] at stop
  simp only [negationOutlineAt, stop, outlineCompound, cut, Option.bind_eq_bind, Option.bind_some]
  cases span : spanOperand 1 behind with
  | error e => rfl
  | ok parts =>
    obtain ⟨operand, rest⟩ := parts
    have whole : text = ('~' :: operand) ++ rest := by
      rw [begins, append_of_spanOperand span]
      rfl
    have negated : slice? 1 (byteCount text) text = some behind := by
      rw [begins]
      exact slice?_right ['~'] behind
    have part : slice? 0 (byteCount ('~' :: operand)) text = some ('~' :: operand) := by
      rw [whole]
      exact slice?_left _ rest
    have later := outlineRestAt_eq ('~' :: operand) rest
    rw [← whole] at later
    simp only [Except.map, List.singleton_append, negated, part, later, Option.bind_some,
      Option.pure_def]
    have ends : byteCount ('~' :: operand) = byteCount text ↔ rest = [] := by
      rw [whole, byteCount_eq_byteCount_append_iff]
    cases rest with
    | nil => rw [if_pos (ends.2 rfl)]
    | cons c rest => rw [if_neg fun same => List.cons_ne_nil c rest (ends.1 same)]

theorem exists_byteCount_cons_eq_succ (c : Char) (cs : List Char) :
    ∃ n, byteCount (c :: cs) = n + 1 :=
  Nat.exists_eq_succ_of_ne_zero (mt byteCount_eq_zero_iff.1 (List.cons_ne_nil c cs))

theorem outlineCompoundAt_eq (text : List Char) :
    outlineCompoundAt text = some (outlineCompound text) := by
  rw [outlineCompoundAt, bestPlace_eq]
  cases cut : leftmostToken Token.all text with
  | none =>
    simp only [outlineCompound, cut]
    rfl
  | some m =>
    obtain ⟨before, token, after⟩ := m
    cases token with
    | connective c => exact connectiveOutlineAt_eq cut
    | openingBracket =>
      cases before with
      | nil => exact bracketOutlineAt_eq cut
      | cons c before =>
        obtain ⟨n, further⟩ := exists_byteCount_cons_eq_succ c before
        simp only [outlineCompound, cut, Option.map_some, TokenMatch.offset, further]
    | negation =>
      cases before with
      | nil => exact negationOutlineAt_eq cut
      | cons c before =>
        obtain ⟨n, further⟩ := exists_byteCount_cons_eq_succ c before
        simp only [outlineCompound, cut, Option.map_some, TokenMatch.offset, further]

/-- The outline by byte offsets is the outline: no slice fails. -/
theorem outlineAt_eq (text : List Char) : outlineAt text = some (outline text) := by
  rw [outlineAt, outline]
  split
  · rfl
  · cases outlineAtom? text with
    | some atom => rfl
    | none => exact outlineCompoundAt_eq text

/-! ## Reading by byte offsets -/

/-- Every part of an outline has fewer bytes than the text. -/
theorem byteCount_lt_of_outline {o : Outline} (h : outline text = .ok o) :
    ∀ part ∈ o.parts, byteCount part < byteCount text := by
  intro part hp
  have shorter := length_lt_of_outline h part hp
  obtain ⟨left, right, rfl⟩ := isInfix_of_outline h part hp
  have around : byteCount left + byteCount right ≠ 0 := by
    intro none
    obtain ⟨atLeft, atRight⟩ := Nat.add_eq_zero_iff.1 none
    rw [byteCount_eq_zero_iff.1 atLeft, byteCount_eq_zero_iff.1 atRight] at shorter
    simp at shorter
  rw [byteCount_append, byteCount_append]
  omega

/-- A text can be read by byte offsets: no slice that its outline takes fails, and the parts that
remain to be read have fewer bytes and can be read by byte offsets too. -/
inductive ReadsBySlices : List Char → Prop
  | step {text : List Char} {result : Except ParseError Outline}
    (sliced : outlineAt text = some result)
    (shorter : ∀ o, result = .ok o → ∀ part ∈ o.parts, byteCount part < byteCount text)
    (parts : ∀ o, result = .ok o → ∀ part ∈ o.parts, ReadsBySlices part) : ReadsBySlices text

/-- Every text can be read by byte offsets, and doing so is reading it: at every text that reading
comes to, the slices exist and make up the outline that reading goes by. -/
theorem readsBySlices (text : List Char) :
    outlineAt text = some (outline text) ∧ ReadsBySlices text := by
  refine ⟨outlineAt_eq text, ?_⟩
  induction hn : byteCount text using Nat.strongRecOn generalizing text with
  | ind n ih =>
    subst hn
    refine .step (outlineAt_eq text) (fun o ho => byteCount_lt_of_outline ho) ?_
    intro o ho part hp
    exact ih _ (byteCount_lt_of_outline ho part hp) part rfl

end Entailment
