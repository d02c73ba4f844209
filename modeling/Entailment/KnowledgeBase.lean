import Entailment.Sentence.Parser

/-!
# Knowledge bases

A knowledge base lists the sentences it was told, in order, and knows every symbol that was read
while they were told. Telling a text that is at fault adds none of its sentences, but the symbols
read before the fault stay known (`tell`).
-/

namespace Entailment

/-- Reads a query: a sentence with its blanks removed and a symbol table of its own. -/
def Sentence.ofText (text : String) : Except ParseError Sentence :=
  (Sentence.parse (String.ofList (Text.withoutBlanks text.toList)) ∅).1

/-- Sentences taken to be true, and the symbols read with them. -/
structure KnowledgeBase where
  sentences : List Sentence
  symbols : SymbolTable

namespace KnowledgeBase

/-- The knowledge base that was told nothing. -/
def empty : KnowledgeBase :=
  ⟨[], ∅⟩

instance : Inhabited KnowledgeBase where
  default := empty

/-- The sentences of a text, as texts: the parts between the semicolons, without blanks and without
the empty parts. -/
def sentenceTexts (text : String) : List (List Char) :=
  ((Text.withoutBlanks text.toList).splitOn ';').filter (!·.isEmpty)

/-- Adds the sentences of a text and gives their number. If one of them is at fault none is added,
and the symbols read before the fault become known all the same. -/
def tell (kb : KnowledgeBase) (text : String) : Except ParseError Nat × KnowledgeBase :=
  match ((sentenceTexts text).mapM Sentence.read).run.run kb.symbols with
  | (.ok fresh, symbols) => (.ok fresh.length, ⟨kb.sentences ++ fresh, symbols⟩)
  | (.error e, symbols) => (.error e, { kb with symbols })

/-- The knowledge base that was told one text. -/
def ofText (text : String) : Except ParseError KnowledgeBase :=
  match empty.tell text with
  | (.ok _, kb) => .ok kb
  | (.error e, _) => .error e

/-- The names of the known symbols. -/
def symbolNames (kb : KnowledgeBase) : SortedSet String :=
  kb.symbols.keys

/-- Whether every symbol of a sentence is known. -/
def covers (kb : KnowledgeBase) (query : Sentence) : Bool :=
  query.symbols.toList.all (· ∈ kb.symbols)

/-- The literals among the sentences, in order. -/
def factLiterals (kb : KnowledgeBase) : List Literal :=
  kb.sentences.filterMap Sentence.asLiteral

/-- Whether every sentence is true on a model. The first false sentence settles the matter. -/
def holdsOn (kb : KnowledgeBase) (m : Model) : Except ModelError Bool :=
  kb.sentences.allM (·.evaluate m)

/-- The written form: the symbols and then the sentences, each on a line. -/
def text (kb : KnowledgeBase) : String :=
  let lines (texts : List String) := String.join (texts.map (· ++ "\n"))
  "Symbols:\n" ++ lines (kb.symbols.values.map Literal.text) ++
    "Sentences:\n" ++ lines (kb.sentences.map Sentence.text)

theorem covers_iff {kb : KnowledgeBase} {query : Sentence} :
    kb.covers query ↔ ∀ name ∈ query.symbols, name ∈ kb.symbols := by
  simp [covers, SortedSet.mem_toList]

end KnowledgeBase

end Entailment
