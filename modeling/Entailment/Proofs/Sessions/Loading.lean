import Entailment.Proofs.KnowledgeBase.Splitting
import Entailment.Session

/-!
# Loading a document

A document is loaded in three steps: it is read, its sentences are told, and its query is asked.
Each step may fail, and no step goes back on the ones before it (`loaded`). So a load that fails
leaves what was asked and, if reading or telling failed, also the sentences that were told. If it
was the query that failed, the sentences of the document stay.
-/

namespace Entailment.Session

variable {s : Session}

theorem ask_of_ok {text : String} {query : Sentence} (h : Sentence.ofText text = .ok query) :
    s.ask text = (.ok (), { s with query := some query }) := by
  rw [ask, h]

theorem ask_of_error {text : String} {fault : ParseError}
    (h : Sentence.ofText text = .error fault) : s.ask text = (.error (.parse fault), s) := by
  rw [ask, h]

/-- The result of telling a session, and the session told. -/
theorem tell_eq (s : Session) (text : String) :
    s.tell text = ((s.kb.tell text).1.mapError .parse, { s with kb := (s.kb.tell text).2 }) :=
  rfl

/-! ## The steps of a load -/

/-- How far a load got, and what it left. -/
inductive Loaded (s : Session) (bytes : List UInt8) : Except Error Unit × Session → Prop
  | unreadable {fault : DocumentError} (read : Document.read bytes = .error fault) :
    Loaded s bytes (.error (.document fault), s)
  | untold {document : Document} {fault : ParseError} (read : Document.read bytes = .ok document)
    (told : (s.kb.tell document.sentences).1 = .error fault) :
    Loaded s bytes (.error (.parse fault), (s.tell document.sentences).2)
  | unasked {document : Document} {n : Nat} {fault : ParseError}
    (read : Document.read bytes = .ok document)
    (told : (s.kb.tell document.sentences).1 = .ok n)
    (asked : Sentence.ofText document.query = .error fault) :
    Loaded s bytes (.error (.parse fault), (s.tell document.sentences).2)
  | done {document : Document} {n : Nat} {query : Sentence}
    (read : Document.read bytes = .ok document)
    (told : (s.kb.tell document.sentences).1 = .ok n)
    (asked : Sentence.ofText document.query = .ok query) :
    Loaded s bytes (.ok (), { (s.tell document.sentences).2 with query := some query })

theorem loaded (s : Session) (bytes : List UInt8) : Loaded s bytes (s.load bytes) := by
  cases hr : Document.read bytes with
  | error fault =>
    rw [load, hr]
    exact .unreadable hr
  | ok document =>
    cases ht : (s.kb.tell document.sentences).1 with
    | error fault =>
      have hl : s.load bytes = (.error (.parse fault), (s.tell document.sentences).2) := by
        simp only [load, hr, tell_eq, ht]
        rfl
      rw [hl]
      exact .untold hr ht
    | ok n =>
      have hl : s.load bytes = (s.tell document.sentences).2.ask document.query := by
        simp only [load, hr, tell_eq, ht]
        rfl
      rw [hl]
      cases ha : Sentence.ofText document.query with
      | error fault =>
        rw [ask_of_error ha]
        exact .unasked hr ht ha
      | ok query =>
        rw [ask_of_ok ha]
        exact .done hr ht ha

/-! ## After a failed load -/

/-- A load that fails leaves the query and the settings. It leaves the sentences too, unless the
document could be read and its sentences were told. Then its query was at fault, and everything is
left as telling the sentences left it. -/
theorem load_keeps_sentences_iff (s : Session) (bytes : List UInt8) {e : Error}
    (failed : (s.load bytes).1 = .error e) :
    (s.load bytes).2.query = s.query ∧ (s.load bytes).2.settings = s.settings ∧
    ((s.load bytes).2.kb.sentences = s.kb.sentences ↔ ∀ document n,
      Document.read bytes = .ok document → (s.tell document.sentences).1 = .ok n → n = 0) ∧
    ∀ document n, Document.read bytes = .ok document → (s.tell document.sentences).1 = .ok n →
      (s.load bytes).2 = (s.tell document.sentences).2 ∧
        ∃ fault, Sentence.ofText document.query = .error fault ∧ e = .parse fault := by
  have steps := loaded s bytes
  generalize s.load bytes = outcome at steps failed ⊢
  cases steps with
  | unreadable read =>
    refine ⟨rfl, rfl, ⟨fun _ document n read' => ?_, fun _ => rfl⟩, fun document n read' => ?_⟩ <;>
    · rw [read] at read'
      cases read'
  | @untold document fault read told =>
    have fails : (s.tell document.sentences).1 = .error (.parse fault) := by
      rw [tell_eq, told]
      rfl
    have kept : (s.tell document.sentences).2.kb.sentences = s.kb.sentences :=
      KnowledgeBase.sentences_tell_of_error told
    refine ⟨rfl, rfl, ⟨fun _ document' n read' told' => ?_, fun _ => kept⟩,
      fun document' n read' told' => ?_⟩ <;>
    · cases read.symm.trans read'
      cases fails.symm.trans told'
  | @unasked document n fault read told asked =>
    have succeeds : (s.tell document.sentences).1 = .ok n := by
      rw [tell_eq, told]
      rfl
    have grown : (s.tell document.sentences).2.kb.sentences = s.kb.sentences ↔ n = 0 :=
      KnowledgeBase.sentences_tell_eq_self_iff told
    cases failed
    refine ⟨rfl, rfl, ⟨fun same document' n' read' told' => ?_, fun none => ?_⟩,
      fun document' n' read' told' => ?_⟩
    · cases read.symm.trans read'
      cases succeeds.symm.trans told'
      exact grown.1 same
    · exact grown.2 (none document n read succeeds)
    · cases read.symm.trans read'
      exact ⟨rfl, fault, asked, rfl⟩
  | done => cases failed

/-- A sentence at fault: nothing is told. -/
theorem load_keeps_sentences_fault :
    let bytes := "TELL\na;(\nASK\na\n".toUTF8.data.toList
    (load {} bytes).1 = .error (.parse (.unmatchedBracket 0)) ∧
      (load {} bytes).2.kb.sentences = [] ∧ (load {} bytes).2.query = none := by
  intro bytes
  have read : Document.read "TELL\na;(\nASK\na\n".toUTF8.data.toList = .ok ⟨"a;(", "a"⟩ := rfl
  have parts : KnowledgeBase.sentenceTexts "a;(" = [['a'], ['(']] := by decide
  have fault : KnowledgeBase.sentencesIn "a;(" = .error (.unmatchedBracket 0) := by
    rw [KnowledgeBase.sentencesIn, parts, List.mapM_cons, List.mapM_cons,
      Sentence.tree_of_literal rfl, Sentence.tree_of_error rfl]
    rfl
  have told := KnowledgeBase.tell_eq_error KnowledgeBase.coherent_empty.canonical fault
  have failed : (load {} bytes).1 = .error (.parse (.unmatchedBracket 0)) := by
    rw [load, read]
    simp only [tell_eq, told]
    rfl
  obtain ⟨query, -, kept, -⟩ := load_keeps_sentences_iff {} bytes failed
  refine ⟨failed, kept.2 fun document n read' told' => ?_, query⟩
  cases read.symm.trans read'
  rw [tell_eq, told] at told'
  cases told'

/-- A query at fault: the sentence before it stays told. -/
theorem load_half :
    let bytes := "TELL\na\nASK\n(\n".toUTF8.data.toList
    (load {} bytes).1 = .error (.parse (.unmatchedBracket 0)) ∧
      (load {} bytes).2.kb.sentences = [.literal (.positive ⟨"a", by decide⟩)] ∧
      ({} : Session).kb.sentences = [] := by
  intro bytes
  have read : Document.read "TELL\na\nASK\n(\n".toUTF8.data.toList = .ok ⟨"a", "("⟩ := rfl
  have fact : KnowledgeBase.sentencesIn "a" = .ok [.literal (.positive ⟨"a", by decide⟩)] :=
    KnowledgeBase.sentencesIn_of_derives (by decide) (.single (.symbol _))
  obtain ⟨later, told, sentences⟩ :=
    KnowledgeBase.tell_eq_ok KnowledgeBase.coherent_empty.canonical fact
  have asked : Sentence.ofText "(" = .error (.unmatchedBracket 0) := by
    rw [Sentence.ofText_eq_tree]
    exact Sentence.tree_of_error rfl
  have loads : load {} bytes = (.error (.parse (.unmatchedBracket 0)), { kb := later }) := by
    rw [load, read]
    simp only [tell_eq, told]
    exact ask_of_error asked
  rw [loads]
  exact ⟨rfl, sentences, rfl⟩

end Entailment.Session
