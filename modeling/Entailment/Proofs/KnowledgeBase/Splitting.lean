import Entailment.Proofs.KnowledgeBase.Texts

/-!
# Telling piece by piece

A text with a semicolon in it is told as the piece before and the piece behind it are, one after the
other: the sentences are read in the same order, each with the table that the ones before it left.
A text without fault appends its sentences. Only a fault makes a difference, for a text at fault
adds none of its sentences, and so the piece before a fault is kept just if it was told by itself.

Blanks are taken out of a text before anything else is done, so that they never matter.
-/

namespace Entailment

open Text

/-! ## Blanks -/

/-- The texts differ by blanks that were put in or taken out, one at a time and anywhere. -/
inductive Respaced (text : List Char) : List Char → Prop
  | refl : Respaced text text
  | insert {left right : List Char} {c : Char} (blank : isBlank c = true)
    (h : Respaced text (left ++ right)) : Respaced text (left ++ c :: right)
  | delete {left right : List Char} {c : Char} (blank : isBlank c = true)
    (h : Respaced text (left ++ c :: right)) : Respaced text (left ++ right)

theorem withoutBlanks_append_cons {left right : List Char} {c : Char} (blank : isBlank c = true) :
    withoutBlanks (left ++ c :: right) = withoutBlanks (left ++ right) := by
  have gone : withoutBlanks (c :: right) = withoutBlanks right :=
    List.filter_cons_of_neg (by simp [blank])
  rw [withoutBlanks_append, withoutBlanks_append, gone]

theorem Respaced.withoutBlanks_eq {text text' : List Char} (h : Respaced text text') :
    withoutBlanks text = withoutBlanks text' := by
  induction h with
  | refl => rfl
  | insert blank _ ih => rw [ih, withoutBlanks_append_cons blank]
  | delete blank _ ih => rw [ih, withoutBlanks_append_cons blank]

namespace KnowledgeBase

variable {kb : KnowledgeBase} {text x y : String} {m n : Nat} {e : ParseError}

/-! ## One text -/

theorem tell_congr {text' : String}
    (h : withoutBlanks text.toList = withoutBlanks text'.toList) (kb : KnowledgeBase) :
    kb.tell text = kb.tell text' := by
  rw [tell, tell, sentenceTexts, sentenceTexts, h]

theorem tell_of_run_ok {fresh : List Sentence} {symbols : SymbolTable}
    (h : ((sentenceTexts text).mapM Sentence.read).run.run kb.symbols = (.ok fresh, symbols)) :
    kb.tell text = (.ok fresh.length, ⟨kb.sentences ++ fresh, symbols⟩) := by
  rw [tell, h]

theorem tell_of_run_error {symbols : SymbolTable}
    (h : ((sentenceTexts text).mapM Sentence.read).run.run kb.symbols = (.error e, symbols)) :
    kb.tell text = (.error e, ⟨kb.sentences, symbols⟩) := by
  rw [tell, h]

theorem exists_run_of_tell_eq_ok (h : (kb.tell text).1 = .ok n) : ∃ fresh symbols,
    ((sentenceTexts text).mapM Sentence.read).run.run kb.symbols = (.ok fresh, symbols) ∧
      fresh.length = n := by
  cases hr : ((sentenceTexts text).mapM Sentence.read).run.run kb.symbols with
  | mk result symbols =>
    cases result with
    | ok fresh =>
      rw [tell_of_run_ok hr] at h
      cases h
      exact ⟨fresh, symbols, rfl, rfl⟩
    | error e =>
      rw [tell_of_run_error hr] at h
      cases h

theorem exists_run_of_tell_eq_error (h : (kb.tell text).1 = .error e) : ∃ symbols,
    ((sentenceTexts text).mapM Sentence.read).run.run kb.symbols = (.error e, symbols) := by
  cases hr : ((sentenceTexts text).mapM Sentence.read).run.run kb.symbols with
  | mk result symbols =>
    cases result with
    | ok fresh =>
      rw [tell_of_run_ok hr] at h
      cases h
    | error e =>
      rw [tell_of_run_error hr] at h
      cases h
      exact ⟨symbols, rfl⟩

/-- A text at fault adds no sentence. -/
theorem sentences_tell_of_error (h : (kb.tell text).1 = .error e) :
    (kb.tell text).2.sentences = kb.sentences := by
  obtain ⟨symbols, hr⟩ := exists_run_of_tell_eq_error h
  rw [tell_of_run_error hr]

/-- A text without fault appends its sentences, which do not hang on a canonical table. -/
theorem sentences_tell_of_ok (h : (kb.tell text).1 = .ok n) : ∃ fresh,
    (kb.tell text).2.sentences = kb.sentences ++ fresh ∧ fresh.length = n ∧
      (kb.symbols.Canonical → sentencesIn text = .ok fresh) := by
  obtain ⟨fresh, symbols, hr, length⟩ := exists_run_of_tell_eq_ok h
  refine ⟨fresh, by rw [tell_of_run_ok hr], length, fun canonical => ?_⟩
  obtain ⟨_, reads, -⟩ := Sentence.registers_mapM_read (sentenceTexts text)
  exact congrArg Prod.fst ((reads _ canonical).symm.trans hr)

/-- A text without fault adds sentences, unless it has none. -/
theorem sentences_tell_eq_self_iff (h : (kb.tell text).1 = .ok n) :
    (kb.tell text).2.sentences = kb.sentences ↔ n = 0 := by
  obtain ⟨fresh, appended, rfl, -⟩ := sentences_tell_of_ok h
  rw [appended, List.append_right_eq_self, List.length_eq_zero_iff]

/-! ## Two pieces -/

theorem sentenceTexts_semicolon (x y : String) :
    sentenceTexts (x ++ ";" ++ y) = sentenceTexts x ++ sentenceTexts y := by
  have separator : withoutBlanks ";".toList = [';'] := by decide
  have cut (left right : List Char) :
      (left ++ ';' :: right).splitOn ';' = left.splitOn ';' ++ right.splitOn ';' := by
    simp only [List.splitOn_eq_splitOnP]
    exact List.splitOnP_append_cons left right (beq_self_eq_true ';')
  rw [sentenceTexts, String.toList_append, String.toList_append, withoutBlanks_append,
    withoutBlanks_append, separator, List.append_assoc, List.singleton_append, cut,
    List.filter_append]
  rfl

/-- The sentences of both pieces are read in one go. -/
theorem mapM_read_semicolon (x y : String) :
    (sentenceTexts (x ++ ";" ++ y)).mapM Sentence.read = (do
      let xs ← (sentenceTexts x).mapM Sentence.read
      let ys ← (sentenceTexts y).mapM Sentence.read
      return xs ++ ys) := by
  rw [sentenceTexts_semicolon, List.mapM_append]

theorem tell_semicolon_of_error (hx : (kb.tell x).1 = .error e) (y : String) :
    (kb.tell (x ++ ";" ++ y)).1 = .error e := by
  obtain ⟨symbols, hr⟩ := exists_run_of_tell_eq_error hx
  have run : ((sentenceTexts (x ++ ";" ++ y)).mapM Sentence.read).run.run kb.symbols =
      (.error e, symbols) := by
    rw [mapM_read_semicolon, Registers.run_bind, hr]
  rw [tell_of_run_error run]

theorem tell_semicolon_of_ok_error (hx : (kb.tell x).1 = .ok m)
    (hy : ((kb.tell x).2.tell y).1 = .error e) : (kb.tell (x ++ ";" ++ y)).1 = .error e := by
  obtain ⟨xs, symbols, hr, -⟩ := exists_run_of_tell_eq_ok hx
  rw [tell_of_run_ok hr] at hy
  obtain ⟨later, hs⟩ := exists_run_of_tell_eq_error hy
  have run : ((sentenceTexts (x ++ ";" ++ y)).mapM Sentence.read).run.run kb.symbols =
      (.error e, later) := by
    rw [mapM_read_semicolon, Registers.run_bind, hr]
    show ((sentenceTexts y).mapM Sentence.read >>= _).run.run symbols = _
    rw [Registers.run_bind, hs]
  rw [tell_of_run_error run]

theorem tell_semicolon_of_ok (hx : (kb.tell x).1 = .ok m)
    (hy : ((kb.tell x).2.tell y).1 = .ok n) :
    kb.tell (x ++ ";" ++ y) = (.ok (m + n), ((kb.tell x).2.tell y).2) := by
  obtain ⟨xs, symbols, hr, rfl⟩ := exists_run_of_tell_eq_ok hx
  rw [tell_of_run_ok hr] at hy ⊢
  obtain ⟨ys, later, hs, rfl⟩ := exists_run_of_tell_eq_ok hy
  have run : ((sentenceTexts (x ++ ";" ++ y)).mapM Sentence.read).run.run kb.symbols =
      (.ok (xs ++ ys), later) := by
    rw [mapM_read_semicolon, Registers.run_bind, hr]
    show ((sentenceTexts y).mapM Sentence.read >>= _).run.run symbols = _
    rw [Registers.run_bind, hs]
    rfl
  rw [tell_of_run_ok run, tell_of_run_ok hs, List.length_append, List.append_assoc]

/-- A text is told as its pieces are, one after the other. It is told without fault exactly when the
pieces are, and then the outcome is the same, with the numbers of sentences added up. A text without
fault appends its sentences, which with a canonical table are those that it stands for. A text at
fault adds no sentence, and blanks make no difference. -/
theorem tell_piecewise (kb : KnowledgeBase) (x y : String) :
    ((∃ n, (kb.tell (x ++ ";" ++ y)).1 = .ok n) ↔
      (∃ m, (kb.tell x).1 = .ok m) ∧ ∃ n, ((kb.tell x).2.tell y).1 = .ok n) ∧
    (∀ m n, (kb.tell x).1 = .ok m → ((kb.tell x).2.tell y).1 = .ok n →
      kb.tell (x ++ ";" ++ y) = (.ok (m + n), ((kb.tell x).2.tell y).2)) ∧
    (∀ m, (kb.tell x).1 = .ok m → ∃ fresh, (kb.tell x).2.sentences = kb.sentences ++ fresh ∧
      fresh.length = m ∧ (kb.symbols.Canonical → sentencesIn x = .ok fresh)) ∧
    (∀ e, (kb.tell x).1 = .error e → (kb.tell x).2.sentences = kb.sentences) ∧
    ∀ x' : String, Respaced x.toList x'.toList → kb.tell x = kb.tell x' := by
  refine ⟨⟨?_, ?_⟩, fun m n => tell_semicolon_of_ok, fun m => sentences_tell_of_ok,
    fun e => sentences_tell_of_error, fun x' h => tell_congr h.withoutBlanks_eq kb⟩
  · intro whole
    obtain ⟨k, whole⟩ := whole
    cases hx : (kb.tell x).1 with
    | error e =>
      rw [tell_semicolon_of_error hx] at whole
      cases whole
    | ok m =>
      cases hy : ((kb.tell x).2.tell y).1 with
      | error e =>
        rw [tell_semicolon_of_ok_error hx hy] at whole
        cases whole
      | ok n => exact ⟨⟨m, rfl⟩, ⟨n, rfl⟩⟩
  · intro pieces
    obtain ⟨⟨m, hx⟩, ⟨n, hy⟩⟩ := pieces
    exact ⟨m + n, by rw [tell_semicolon_of_ok hx hy]⟩

/-- Two facts told with a semicolon between them are appended in their order. -/
theorem tell_piecewise_facts :
    let a : Sentence := .literal (.positive ⟨"a", by decide⟩)
    let b : Sentence := .literal (.positive ⟨"b", by decide⟩)
    let notC : Sentence := .literal (Literal.positive ⟨"c", by decide⟩).negate
    let kb := told ["b"]
    (kb.tell "a").1 = .ok 1 ∧ ((kb.tell "a").2.tell "~c").1 = .ok 1 ∧
      kb.tell ("a" ++ ";" ++ "~c") = (.ok 2, ((kb.tell "a").2.tell "~c").2) ∧
      (kb.tell "a").2.sentences = [b, a] ∧
      (kb.tell ("a" ++ ";" ++ "~c")).2.sentences = [b, a, notC] ∧
      Respaced "a".toList "\ta ".toList ∧ kb.tell "a" = kb.tell "\ta " ∧
      (kb.tell "(").1 = .error (.unmatchedBracket 0) ∧
      (kb.tell "(").2.sentences = kb.sentences := by
  intro a b notC kb
  have old : sentencesIn "b" = .ok [b] := sentencesIn_of_derives (by decide) (.single (.symbol _))
  have fact : sentencesIn "a" = .ok [a] := sentencesIn_of_derives (by decide) (.single (.symbol _))
  have negatedFact : sentencesIn "~c" = .ok [notC] :=
    sentencesIn_of_derives (by decide) (.single (.negatedSymbol _))
  have fault : sentencesIn "(" = .error (.unmatchedBracket 0) := by
    have parts : sentenceTexts "(" = [['(']] := by decide
    rw [sentencesIn, parts, List.mapM_cons, Sentence.tree_of_error rfl]
    rfl
  have appendsOne {kb : KnowledgeBase} (h : kb.Coherent) {text : String} {s : Sentence}
      (hf : sentencesIn text = .ok [s]) :
      (kb.tell text).1 = .ok 1 ∧ (kb.tell text).2.sentences = kb.sentences ++ [s] := by
    have result : (kb.tell text).1 = .ok 1 := by
      rw [tell_result h.canonical, hf]
      rfl
    obtain ⟨-, -, appends, -⟩ := tell_piecewise kb text ""
    obtain ⟨fresh, appended, -, stands⟩ := appends 1 result
    cases (stands h.canonical).symm.trans hf
    exact ⟨result, appended⟩
  have before : kb.Coherent := coherent_told ["b"]
  have start : kb.sentences = [b] := (told_singleton old).1
  obtain ⟨first, appended⟩ := appendsOne before fact
  obtain ⟨second, appended'⟩ := appendsOne (before.tell "a") negatedFact
  rw [start] at appended
  rw [appended] at appended'
  have tab : Respaced ['a'] ([] ++ '\t' :: ['a']) := .insert (by decide) .refl
  have spaced : Respaced ['a'] (['\t', 'a'] ++ ' ' :: []) := .insert (by decide) tab
  obtain ⟨-, joined, -, -, respaced⟩ := tell_piecewise kb "a" "~c"
  have whole := joined 1 1 first second
  have fails := tell_eq_error before.canonical fault
  obtain ⟨-, -, -, kept, -⟩ := tell_piecewise kb "(" ""
  exact ⟨first, second, whole, appended, by rw [whole, appended']; rfl, spaced,
    respaced _ spaced, fails, kept _ fails⟩

end KnowledgeBase

end Entailment
