import Entailment.KnowledgeBase
import Entailment.Proofs.Reading.Registering

/-!
# What telling does to a knowledge base

Telling a text to a knowledge base with a canonical table adds the sentences that the text stands
for, whatever was told before (`tell_of_canonical`). A knowledge base stays coherent under it, that
is, its table stays canonical and knows the symbols of all its sentences.
-/

namespace Entailment

namespace Sentence

/-- Reading several texts gives their trees, or the first fault among them. -/
theorem registers_mapM_read (texts : List (List Char)) :
    ∃ symbols, Registers (texts.mapM read) (texts.mapM tree) symbols ∧
      SymbolsOf (·.flatMap symbolOccurrences) (texts.mapM tree) symbols := by
  induction texts with
  | nil =>
    refine ⟨[], .pure [], symbolsOf_ok.2 ?_⟩
    simp
  | cons text texts ih =>
    obtain ⟨ps, hr, hs⟩ := registers_read text
    obtain ⟨qs, hrs, hss⟩ := ih
    rw [List.mapM_cons, List.mapM_cons]
    cases ht : tree text with
    | error e =>
      rw [ht] at hr
      exact ⟨ps, hr.bind_error, symbolsOf_error⟩
    | ok t =>
      rw [ht] at hr hs
      cases hts : texts.mapM tree with
      | error e =>
        rw [hts] at hrs
        exact ⟨ps ++ qs, hr.bind hrs.bind_error, symbolsOf_error⟩
      | ok ts =>
        rw [hts] at hrs hss
        refine ⟨ps ++ qs, hr.bind (hrs.map (t :: ·)), symbolsOf_ok.2 ?_⟩
        intro name
        simp only [List.flatMap_cons, List.mem_append, symbolsOf_ok.1 hs, symbolsOf_ok.1 hss,
          or_and_right, exists_or]

end Sentence

namespace KnowledgeBase

variable {kb : KnowledgeBase}

/-- The sentences that a text stands for, or the first fault in it. -/
def sentencesIn (text : String) : Except ParseError (List Sentence) :=
  (sentenceTexts text).mapM Sentence.tree

/-- The knowledge base after telling it texts in order, each of which may be at fault. -/
def tellAll (kb : KnowledgeBase) (texts : List String) : KnowledgeBase :=
  texts.foldl (fun kb text => (kb.tell text).2) kb

/-- The knowledge base that was told the texts and nothing before them. -/
def told (texts : List String) : KnowledgeBase :=
  empty.tellAll texts

/-- The table is canonical and knows every symbol of the sentences. -/
structure Coherent (kb : KnowledgeBase) : Prop where
  canonical : kb.symbols.Canonical
  known : ∀ s ∈ kb.sentences, ∀ name ∈ s.symbolOccurrences, name ∈ kb.symbols

/-- What a tell does does not hang on the table. On success the symbols registered are those of the
sentences added; on failure they are left open here. -/
theorem tell_of_canonical (h : kb.symbols.Canonical) (text : String) :
    ∃ symbols, kb.tell text = (match sentencesIn text with
        | .ok fresh =>
          (.ok fresh.length, ⟨kb.sentences ++ fresh, kb.symbols.registerAll symbols⟩)
        | .error e => (.error e, ⟨kb.sentences, kb.symbols.registerAll symbols⟩)) ∧
      SymbolsOf (·.flatMap Sentence.symbolOccurrences) (sentencesIn text) symbols := by
  obtain ⟨symbols, hr, hs⟩ := Sentence.registers_mapM_read (sentenceTexts text)
  refine ⟨symbols, ?_, hs⟩
  rw [tell, hr _ h, sentencesIn]
  cases (sentenceTexts text).mapM Sentence.tree <;> rfl

theorem coherent_empty : Coherent empty where
  canonical := SymbolTable.canonical_empty
  known := by simp [empty]

theorem Coherent.tell (h : kb.Coherent) (text : String) : (kb.tell text).2.Coherent := by
  obtain ⟨symbols, ht, hs⟩ := tell_of_canonical h.canonical text
  have hold : ∀ s ∈ kb.sentences, ∀ name ∈ s.symbolOccurrences,
      name ∈ kb.symbols.registerAll symbols :=
    fun s hm name hn => SymbolTable.mem_registerAll.2 (.inr (h.known s hm name hn))
  rw [ht]
  cases hf : sentencesIn text with
  | error e => exact ⟨h.canonical.registerAll symbols, hold⟩
  | ok fresh =>
    refine ⟨h.canonical.registerAll symbols, fun s hm name hn => ?_⟩
    rcases List.mem_append.1 hm with hm | hm
    · exact hold s hm name hn
    · have hin : name ∈ fresh.flatMap Sentence.symbolOccurrences :=
        List.mem_flatMap.2 ⟨s, hm, hn⟩
      exact SymbolTable.mem_registerAll.2 (.inl ((hs fresh hf name).1 hin))

theorem Coherent.tellAll (h : kb.Coherent) (texts : List String) : (kb.tellAll texts).Coherent := by
  induction texts generalizing kb with
  | nil => exact h
  | cons text texts ih => exact ih (h.tell text)

theorem coherent_told (texts : List String) : (told texts).Coherent :=
  coherent_empty.tellAll texts

theorem sentences_tell (h : kb.Coherent) (text : String) :
    (kb.tell text).2.sentences = kb.sentences ++ (sentencesIn text).toOption.getD [] := by
  obtain ⟨symbols, ht, -⟩ := tell_of_canonical h.canonical text
  rw [ht]
  cases sentencesIn text with
  | error e => exact (List.append_nil _).symm
  | ok fresh => rfl

theorem sentences_tellAll (h : kb.Coherent) (texts : List String) :
    (kb.tellAll texts).sentences =
      kb.sentences ++ texts.flatMap fun text => (sentencesIn text).toOption.getD [] := by
  induction texts generalizing kb with
  | nil => exact (List.append_nil _).symm
  | cons text texts ih =>
    rw [List.flatMap_cons, ← List.append_assoc, ← sentences_tell h]
    exact ih (h.tell text)

/-- The sentences of a knowledge base are those of the texts told to it without fault, in order. -/
theorem sentences_told (texts : List String) :
    (told texts).sentences = texts.flatMap fun text => (sentencesIn text).toOption.getD [] :=
  sentences_tellAll coherent_empty texts

end KnowledgeBase

end Entailment
