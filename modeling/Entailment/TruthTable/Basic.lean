import Entailment.KnowledgeBase
import Entailment.TruthTable.Counting
import Entailment.TruthTable.Report

/-!
# Queries by truth table

The models of a knowledge base and a query are found by trying all assignments to their symbols.
The symbols of facts are known beforehand, by the first fact about each, and only the others are
counted through: a model that gives a known symbol the other value makes a fact false.
-/

namespace Entailment.TruthTable

/-- The value of each symbol that a fact is about, by the first of its facts. -/
def knownValues (kb : KnowledgeBase) : SortedMap String Bool :=
  kb.factLiterals.foldl
    (fun known l => if l.name ∈ known then known else known.insert l.name l.polarity) ∅

/-- The symbols of the knowledge base and of the query. -/
def allSymbols (kb : KnowledgeBase) (query : Sentence) : SortedSet String :=
  kb.symbolNames.union query.symbols

/-- The symbols that no fact is about. -/
def unknownSymbols (kb : KnowledgeBase) (query : Sentence) : List String :=
  (allSymbols kb query).toList.filter (· ∉ knownValues kb)

/-- Gives each symbol of a list the value at the same place of another list. -/
def setAll (m : Model) (symbols : List String) (values : List Bool) : Model :=
  (symbols.zip values).foldl (fun m (symbol, value) => m.set symbol value) m

/-- The model in which the known symbols have their values and no other symbol has one. -/
def knownModel (kb : KnowledgeBase) (query : Sentence) : Model :=
  (knownValues kb).entries.foldl (fun m (symbol, value) => m.set symbol value)
    (.unassigned (allSymbols kb query).toList)

/-- All models that agree with the known values, in the order of counting. -/
def candidates (kb : KnowledgeBase) (query : Sentence) : List Model :=
  let unknown := unknownSymbols kb query
  (countUp unknown.length).map (setAll (knownModel kb query) unknown)

/-- Answers a query by truth table. -/
def check (kb : KnowledgeBase) (query : Sentence) : Except ModelError TableReport := do
  let kbModels ← (candidates kb query).filterM kb.holdsOn
  let models ← kbModels.filterM query.evaluate
  return .ofModels (allSymbols kb query).toList models kbModels.length

end Entailment.TruthTable
