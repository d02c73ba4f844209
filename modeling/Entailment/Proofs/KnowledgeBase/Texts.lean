import Entailment.Proofs.KnowledgeBase.Telling
import Entailment.Proofs.Reading.Writing
import Mathlib.Data.List.Forall2

/-!
# What texts say

The sentences of a text and the query of a text are read by the grammar, and neither reading needs
a symbol table. A tell without fault makes known just the symbols of the sentences it adds. Texts of
sentences with semicolons between them are told as these sentences, since no sentence has a
semicolon in it.
-/

namespace Entailment

open Text

/-! ## Queries -/

namespace Sentence

theorem ofText_eq_tree (text : String) : ofText text = tree (withoutBlanks text.toList) := by
  rw [ofText, parse_eq_tree SymbolTable.canonical_empty, String.toList_ofList]

/-- The text of the query of a session that was asked nothing. -/
theorem ofText_true : ofText "True" = .ok (constant true) := by
  have letters : withoutBlanks "True".toList = (valueText (some true)).toList := by decide
  rw [ofText_eq_tree, letters]
  exact (Derives.single (.constant true)).tree

end Sentence

/-! ## Tells -/

namespace KnowledgeBase

variable {kb : KnowledgeBase} {text : String} {name : String}

theorem sentencesIn_of_derives {part : List Char} {s : Sentence}
    (only : sentenceTexts text = [part]) (h : Derives .sentence part s) :
    sentencesIn text = .ok [s] := by
  rw [sentencesIn, only, List.mapM_cons, h.tree]
  rfl

/-- No character of a sentence separates sentences. -/
theorem semicolon_not_mem_of_derives {k : Category} {part : List Char} {s : Sentence}
    (h : Derives k part s) : ';' ∉ part := by
  have name (p : Symbol) : ';' ∉ p.name.toList := by
    intro hm
    rcases isLetter_or_isDigit_of_isSymbol p.isSymbol_name ';' hm with hl | hd
    · exact absurd hl (by decide)
    · exact absurd hd (by decide)
  induction h with
  | symbol p => exact name p
  | constant b => cases b <;> decide
  | bracketed _ ih => simpa using ih
  | negatedSymbol p => simpa using name p
  | negation _ _ ih => simpa using ih
  | single _ ih => exact ih
  | joined c _ _ ihl ihr => cases c <;> simpa [Connective.token] using ⟨ihl, ihr⟩

theorem sentenceTexts_intercalate {parts : List String}
    (h : ∀ part ∈ parts, ';' ∉ withoutBlanks part.toList ∧ withoutBlanks part.toList ≠ []) :
    sentenceTexts (";".intercalate parts) = parts.map fun part => withoutBlanks part.toList := by
  cases hp : parts with
  | nil => decide
  | cons first more =>
    rw [← hp]
    have separator : withoutBlanks ";".toList = [';'] := by decide
    have apart : ∀ text ∈ parts.map (fun part => withoutBlanks part.toList), ';' ∉ text :=
      List.forall_mem_map.2 fun part hm => (h part hm).1
    have some : parts.map (fun part => withoutBlanks part.toList) ≠ [] := by simp [hp]
    rw [sentenceTexts, String.toList_intercalate, withoutBlanks_intercalate, separator,
      List.map_map]
    rw [Function.comp_def, List.splitOn_intercalate ';' apart some, List.filter_eq_self]
    refine List.forall_mem_map.2 fun part hm => ?_
    simpa using (h part hm).2

/-- Texts of sentences with semicolons between them are read as these sentences. -/
theorem sentencesIn_intercalate {parts : List String} {ss : List Sentence}
    (h : List.Forall₂ (fun part s => Derives .sentence (withoutBlanks part.toList) s) parts ss) :
    sentencesIn (";".intercalate parts) = .ok ss := by
  have written : ∀ part ∈ parts,
      ';' ∉ withoutBlanks part.toList ∧ withoutBlanks part.toList ≠ [] := by
    have both := h.imp fun part s hd =>
      And.intro (And.intro (semicolon_not_mem_of_derives hd) hd.ne_nil) hd
    exact ((List.forall₂_and_left parts ss).1 both).1
  rw [sentencesIn, sentenceTexts_intercalate written]
  clear written
  induction h with
  | nil => rfl
  | cons hd _ ih =>
    rw [List.map_cons, List.mapM_cons, hd.tree, ih]
    rfl

/-- Whether a tell fails does not hang on the knowledge base. -/
theorem tell_result (h : kb.symbols.Canonical) (text : String) :
    (kb.tell text).1 = (sentencesIn text).map List.length := by
  obtain ⟨symbols, ht, -⟩ := tell_of_canonical h text
  rw [ht]
  cases sentencesIn text <;> rfl

/-- A tell without fault adds the sentences of the text and gives their number. -/
theorem tell_eq_ok (h : kb.symbols.Canonical) {fresh : List Sentence}
    (hf : sentencesIn text = .ok fresh) :
    ∃ later, kb.tell text = (.ok fresh.length, later) ∧
      later.sentences = kb.sentences ++ fresh := by
  obtain ⟨symbols, ht, -⟩ := tell_of_canonical h text
  rw [hf] at ht
  exact ⟨_, ht, rfl⟩

/-- A tell of a text at fault fails with the first fault. -/
theorem tell_eq_error (h : kb.symbols.Canonical) {e : ParseError}
    (hf : sentencesIn text = .error e) : (kb.tell text).1 = .error e := by
  rw [tell_result h, hf]
  rfl

theorem mem_symbols_tell (h : kb.Coherent) {fresh : List Sentence}
    (hf : sentencesIn text = .ok fresh) :
    name ∈ (kb.tell text).2.symbols ↔
      name ∈ fresh.flatMap Sentence.symbolOccurrences ∨ name ∈ kb.symbols := by
  obtain ⟨symbols, ht, hs⟩ := tell_of_canonical h.canonical text
  rw [ht, hf, hs fresh hf name]
  exact SymbolTable.mem_registerAll

/-- The knowledge base that was told one text has just its sentences and their symbols. -/
theorem told_singleton {fresh : List Sentence} (hf : sentencesIn text = .ok fresh) :
    (told [text]).sentences = fresh ∧
      ∀ name, name ∈ (told [text]).symbols ↔ name ∈ fresh.flatMap Sentence.symbolOccurrences := by
  constructor
  · rw [sentences_told, List.flatMap_singleton, hf]
    rfl
  · intro name
    have nothing : name ∉ empty.symbols := SortedSet.not_mem_empty name
    exact (mem_symbols_tell coherent_empty hf).trans (or_iff_left nothing)

end KnowledgeBase

end Entailment
