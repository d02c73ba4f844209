import Entailment.Proofs.Reading.Tokens
import Mathlib.Data.List.Induction

/-!
# The leftmost token

A text is cut at the least byte offset at which some token of the table occurs, and there it has no
other token (`finds_leftmostToken`). Nothing in this hangs on the order of the table. So looking for
each token of the table by itself, and keeping of two finds the one further left, comes to the same
find in whatever order the table is gone through: its rule for ties never decides anything.
-/

namespace Entailment

open Text

variable {tokens : List Token} {text : List Char} {t : Token} {offset : Nat}

namespace Token

/-- The token stands in the text at a byte offset. -/
def OccursAt (t : Token) (text : List Char) (offset : Nat) : Prop :=
  ∃ before after, text = before ++ t.chars ++ after ∧ byteCount before = offset

theorem not_occursAt_nil : ¬ t.OccursAt [] offset := by
  rintro ⟨before, after, ht, -⟩
  obtain ⟨front, -⟩ := List.append_eq_nil_iff.1 ht.symm
  exact t.chars_ne_nil (List.append_eq_nil_iff.1 front).2

theorem occursAt_zero : t.OccursAt text 0 ↔ t.chars <+: text := by
  constructor
  · rintro ⟨before, after, rfl, size⟩
    cases before with
    | nil => exact List.prefix_append _ _
    | cons c before =>
      have := c.utf8Size_pos
      rw [byteCount_cons] at size
      omega
  · rintro ⟨after, rfl⟩
    exact ⟨[], after, rfl, rfl⟩

/-- A token stands at the first character of a text, or behind it. -/
theorem occursAt_cons {c : Char} : t.OccursAt (c :: text) offset ↔
    offset = 0 ∧ t.chars <+: c :: text ∨
      ∃ rest, offset = c.utf8Size + rest ∧ t.OccursAt text rest := by
  constructor
  · rintro ⟨before, after, ht, size⟩
    cases before with
    | nil => exact .inl ⟨size.symm, ht ▸ List.prefix_append _ _⟩
    | cons d before =>
      rw [List.cons_append, List.cons_append, List.cons.injEq] at ht
      obtain ⟨rfl, ht⟩ := ht
      exact .inr ⟨byteCount before, size.symm, before, after, ht, rfl⟩
  · rintro (⟨rfl, begins⟩ | ⟨rest, rfl, before, after, rfl, rfl⟩)
    · exact occursAt_zero.2 begins
    · exact ⟨c :: before, after, rfl, rfl⟩

/-- Two tokens at the same offset are one, since an offset cuts a text in one way only. -/
theorem eq_of_occursAt {u : Token} (ht : t.OccursAt text offset) (hu : u.OccursAt text offset) :
    t = u := by
  obtain ⟨before, after, rfl, size⟩ := ht
  obtain ⟨before', after', same, rfl⟩ := hu
  rw [List.append_assoc, List.append_assoc] at same
  obtain ⟨-, rest⟩ := append_inj_of_byteCount_eq same size
  exact eq_of_prefix (List.prefix_append _ after) (rest ▸ List.prefix_append _ after')

end Token

/-- What is to be found in a text: the leftmost place of a token of the table, or nothing if there
is no such place. -/
def Finds (tokens : List Token) (text : List Char) : Option (Nat × Token) → Prop
  | none => ∀ t ∈ tokens, ∀ offset, ¬ t.OccursAt text offset
  | some (least, t) => t ∈ tokens ∧ t.OccursAt text least ∧
    ∀ u ∈ tokens, ∀ offset, u.OccursAt text offset → least ≤ offset

namespace Finds

variable {found found' : Option (Nat × Token)}

/-- There is only one leftmost place, and only one token at it. -/
theorem unique (h : Finds tokens text found) (h' : Finds tokens text found') : found = found' := by
  cases found with
  | none =>
    cases found' with
    | none => rfl
    | some place => exact absurd h'.2.1 (h _ h'.1 _)
  | some place =>
    cases found' with
    | none => exact absurd h.2.1 (h' _ h.1 _)
    | some place' =>
      obtain ⟨least, t⟩ := place
      obtain ⟨least', u⟩ := place'
      obtain ⟨ht, stands, first⟩ := h
      obtain ⟨hu, stands', first'⟩ := h'
      obtain rfl : least = least' :=
        Nat.le_antisymm (first u hu least' stands') (first' t ht least stands)
      rw [Token.eq_of_occursAt stands stands']

/-- The order of the table does not matter, nor does it matter how often a token is in it. -/
theorem congr {tokens' : List Token} (same : ∀ t, t ∈ tokens' ↔ t ∈ tokens)
    (h : Finds tokens text found) : Finds tokens' text found := by
  cases found with
  | none => exact fun t ht => h t ((same t).1 ht)
  | some place =>
    obtain ⟨ht, stands, first⟩ := h
    exact ⟨(same _).2 ht, stands, fun u hu => first u ((same u).1 hu)⟩

theorem nil : Finds tokens [] none :=
  fun _ _ _ => Token.not_occursAt_nil

theorem of_begins (ht : t ∈ tokens) (begins : t.chars <+: text) :
    Finds tokens text (some (0, t)) :=
  ⟨ht, Token.occursAt_zero.2 begins, fun _ _ offset _ => Nat.zero_le offset⟩

/-- If no token stands at the first character, what is found is what is found behind it. -/
theorem cons {c : Char} (nothing : ∀ t ∈ tokens, ¬ t.chars <+: c :: text)
    (h : Finds tokens text found) :
    Finds tokens (c :: text) (found.map fun (least, t) => (c.utf8Size + least, t)) := by
  have behind {t : Token} (ht : t ∈ tokens) {offset : Nat}
      (stands : t.OccursAt (c :: text) offset) :
      ∃ rest, offset = c.utf8Size + rest ∧ t.OccursAt text rest :=
    (Token.occursAt_cons.1 stands).resolve_left fun first => nothing t ht first.2
  cases found with
  | none =>
    intro t ht offset stands
    obtain ⟨rest, -, stands⟩ := behind ht stands
    exact h t ht rest stands
  | some place =>
    obtain ⟨ht, stands, first⟩ := h
    refine ⟨ht, Token.occursAt_cons.2 (.inr ⟨_, rfl, stands⟩), ?_⟩
    intro u hu offset stands'
    obtain ⟨rest, rfl, further⟩ := behind hu stands'
    exact Nat.add_le_add_left (first u hu rest further) _

end Finds

/-- Cutting a text at the leftmost token finds the leftmost place. -/
theorem finds_leftmostToken (tokens : List Token) (text : List Char) :
    Finds tokens text ((leftmostToken tokens text).map fun m => (m.offset, m.token)) := by
  induction text with
  | nil => exact .nil
  | cons c text ih =>
    rw [leftmostToken]
    cases hl : leadingToken tokens (c :: text) with
    | some found =>
      obtain ⟨t, after⟩ := found
      obtain ⟨ht, parts⟩ := leadingToken_eq_some_iff.1 hl
      exact .of_begins ht (parts ▸ List.prefix_append _ after)
    | none =>
      have step := ih.cons (leadingToken_eq_none_iff.1 hl)
      rw [Option.map_map] at step ⊢
      exact step

/-! ## Looking for one token after the other -/

/-- The byte offset of the first place of a token. -/
def Token.firstOffset? (t : Token) : List Char → Option Nat
  | [] => none
  | c :: text =>
    if t.chars.isPrefixOf (c :: text) then some 0
    else (t.firstOffset? text).map (c.utf8Size + ·)

/-- The better of the best place so far and the first place of one more token. A place only gives
way to one further left. -/
def betterPlace (text : List Char) (best : Option (Nat × Token)) (t : Token) :
    Option (Nat × Token) :=
  match t.firstOffset? text, best with
  | none, _ => best
  | some offset, none => some (offset, t)
  | some offset, some (least, _) => if least ≤ offset then best else some (offset, t)

/-- The best place of all tokens, looked for in the order of the table. -/
def bestPlace (tokens : List Token) (text : List Char) : Option (Nat × Token) :=
  tokens.foldl (betterPlace text) none

theorem finds_firstOffset? (t : Token) (text : List Char) :
    Finds [t] text ((t.firstOffset? text).map (·, t)) := by
  induction text with
  | nil => exact .nil
  | cons c text ih =>
    rw [Token.firstOffset?]
    split
    · next begins =>
      exact .of_begins List.mem_cons_self (List.isPrefixOf_iff_prefix.1 begins)
    · next other =>
      rw [List.isPrefixOf_iff_prefix] at other
      have step := ih.cons (List.forall_mem_singleton.2 other)
      rw [Option.map_map] at step ⊢
      exact step

/-- Of what was found for the tokens so far and for one more, the better is found for all. -/
theorem Finds.betterPlace {best : Option (Nat × Token)} (h : Finds tokens text best) (t : Token) :
    Finds (tokens ++ [t]) text (betterPlace text best t) := by
  have one := finds_firstOffset? t text
  unfold Entailment.betterPlace
  cases hf : t.firstOffset? text with
  | none =>
    rw [hf] at one
    cases best with
    | none => exact List.forall_mem_append.2 ⟨h, one⟩
    | some place =>
      obtain ⟨hu, stands, first⟩ := h
      have absent := List.forall_mem_singleton.1 one
      refine ⟨List.mem_append_left _ hu, stands, List.forall_mem_append.2 ⟨first, ?_⟩⟩
      exact List.forall_mem_singleton.2 fun offset stands' => absurd stands' (absent offset)
  | some offset =>
    rw [hf] at one
    obtain ⟨-, stands, first⟩ := one
    have ht : t ∈ tokens ++ [t] := List.mem_append_right _ List.mem_cons_self
    cases best with
    | none =>
      refine ⟨ht, stands, List.forall_mem_append.2 ⟨fun u hu offset' stands' => ?_, first⟩⟩
      exact absurd stands' (h u hu offset')
    | some place =>
      obtain ⟨least, u⟩ := place
      obtain ⟨hu, standsU, firstU⟩ := h
      show Finds _ text (if least ≤ offset then some (least, u) else some (offset, t))
      split
      · next before =>
        refine ⟨List.mem_append_left _ hu, standsU, List.forall_mem_append.2 ⟨firstU, ?_⟩⟩
        refine List.forall_mem_singleton.2 fun offset' stands' => ?_
        exact Nat.le_trans before (first t List.mem_cons_self offset' stands')
      · next behind =>
        refine ⟨ht, stands, List.forall_mem_append.2 ⟨fun v hv offset' stands' => ?_, first⟩⟩
        exact Nat.le_trans (Nat.le_of_not_le behind) (firstU v hv offset' stands')

theorem finds_bestPlace (tokens : List Token) (text : List Char) :
    Finds tokens text (bestPlace tokens text) := by
  induction tokens using List.reverseRecOn with
  | nil =>
    intro t ht
    cases ht
  | append_singleton tokens t ih =>
    rw [bestPlace, List.foldl_append]
    exact ih.betterPlace t

theorem bestPlace_eq (tokens : List Token) (text : List Char) :
    bestPlace tokens text = (leftmostToken tokens text).map fun m => (m.offset, m.token) :=
  (finds_bestPlace tokens text).unique (finds_leftmostToken tokens text)

/-! ## The leftmost token -/

/-- The offset and the token make up the whole cut. -/
theorem eq_of_leftmostToken {tokens' : List Token} {m m' : TokenMatch}
    (h : leftmostToken tokens text = some m) (h' : leftmostToken tokens' text = some m')
    (offsets : m.offset = m'.offset) (same : m.token = m'.token) : m = m' := by
  have parts := append_of_leftmostToken h
  rw [append_of_leftmostToken h', List.append_assoc, List.append_assoc] at parts
  obtain ⟨before, rest⟩ := append_inj_of_byteCount_eq parts offsets.symm
  cases m
  cases m'
  cases before
  cases same
  cases List.append_cancel_left rest
  rfl

theorem leftmostToken_congr {tokens' : List Token} (same : ∀ t, t ∈ tokens' ↔ t ∈ tokens) :
    leftmostToken tokens' text = leftmostToken tokens text := by
  have found := (finds_leftmostToken tokens text).congr same
  have alike := (finds_leftmostToken tokens' text).unique found
  cases h : leftmostToken tokens text with
  | none =>
    rw [h] at alike
    exact Option.map_eq_none_iff.1 alike
  | some m =>
    rw [h] at alike
    obtain ⟨m', h', place⟩ := Option.map_eq_some_iff.1 alike
    rw [Prod.mk.injEq] at place
    rw [h', eq_of_leftmostToken h' h place.1 place.2]

/-- A text is cut nowhere if no token of the table occurs in it, and otherwise at the least offset
at which one does, by the only token there. So the `=>` within a `<=>` is never found if `<=>` is in
the table. What is found does not hang on the order of the table, also if its tokens are looked for
one after the other. -/
theorem leftmostToken_leftmost (tokens : List Token) (text : List Char) :
    (leftmostToken tokens text = none ↔ ∀ t ∈ tokens, ∀ offset, ¬ t.OccursAt text offset) ∧
    (∀ offset t, (∃ m, leftmostToken tokens text = some m ∧ m.offset = offset ∧ m.token = t) ↔
      t ∈ tokens ∧ t.OccursAt text offset ∧
        ∀ u ∈ tokens, ∀ offset', u.OccursAt text offset' → offset ≤ offset') ∧
    (∀ m, leftmostToken tokens text = some m →
      (∀ t, t.OccursAt text m.offset ↔ t = m.token) ∧
      (.connective .biconditional ∈ tokens → ∀ tail,
        Token.OccursAt (.connective .biconditional) text tail → m.offset ≠ tail + 1)) ∧
    ∀ tokens', (∀ t, t ∈ tokens' ↔ t ∈ tokens) →
      leftmostToken tokens' text = leftmostToken tokens text ∧
      bestPlace tokens' text =
        (leftmostToken tokens text).map fun m => (m.offset, m.token) := by
  have found := finds_leftmostToken tokens text
  refine ⟨⟨fun h => ?_, fun h => ?_⟩, fun offset t => ⟨?_, fun h => ?_⟩, fun m h => ⟨?_, ?_⟩,
    fun tokens' same => ⟨leftmostToken_congr same, ?_⟩⟩
  · rw [h] at found
    exact found
  · have nothing : Finds tokens text none := h
    exact Option.map_eq_none_iff.1 (found.unique nothing)
  · rintro ⟨m, h, rfl, rfl⟩
    rw [h] at found
    exact found
  · have first : Finds tokens text (some (offset, t)) := h
    obtain ⟨m, hm, place⟩ := Option.map_eq_some_iff.1 (found.unique first)
    rw [Prod.mk.injEq] at place
    exact ⟨m, hm, place⟩
  · rw [h] at found
    exact fun t => ⟨fun stands => Token.eq_of_occursAt stands found.2.1,
      fun same => same ▸ found.2.1⟩
  · intro biconditional tail stands
    rw [h] at found
    have := found.2.2 _ biconditional tail stands
    omega
  · exact (finds_bestPlace tokens' text).unique (found.congr same)

example : bestPlace Token.all.reverse "é<=>b".toList = some (2, .connective .biconditional) := by
  decide

end Entailment
