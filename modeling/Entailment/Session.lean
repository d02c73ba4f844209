import Entailment.Error
import Entailment.Horn.Backward
import Entailment.Horn.Forward
import Entailment.Report
import Entailment.TruthTable.Basic

/-!
# Sessions

A session is told sentences, is asked a query, and answers it with the algorithm of its settings.
The query of a session that was asked nothing is read from the text `True`.

A query with a symbol that the knowledge base does not know is not found, and no algorithm is run
on it; chaining still requires that the knowledge base and the query have the right form.
-/

namespace Entailment

/-- What a session was told and asked, and how it is to answer. -/
structure Session where
  settings : Settings := {}
  kb : KnowledgeBase := .empty
  query : Option Sentence := none

namespace Session

instance : Inhabited Session where
  default := {}

/-- Adds the sentences of a text to the knowledge base and gives their number. -/
def tell (s : Session) (text : String) : Except Error Nat × Session :=
  let (result, kb) := s.kb.tell text
  (result.mapError .parse, { s with kb })

/-- Makes the sentence of a text the query, instead of the query so far. -/
def ask (s : Session) (text : String) : Except Error Unit × Session :=
  match Sentence.ofText text with
  | .ok query => (.ok (), { s with query := some query })
  | .error e => (.error (.parse e), s)

/-- Tells the sentences of a document, and then asks its query. -/
def load (s : Session) (bytes : List UInt8) : Except Error Unit × Session :=
  match Document.read bytes with
  | .error e => (.error (.document e), s)
  | .ok document =>
    match s.tell document.sentences with
    | (.ok _, s) => s.ask document.query
    | (.error e, s) => (.error e, s)

/-- Selects the algorithm of a name. -/
def selectAlgorithm (s : Session) (name : String) : Except Error Unit × Session :=
  match Algorithm.ofName name with
  | .ok a => (.ok (), { s with settings := s.settings.withAlgorithm a })
  | .error e => (.error (.selection e), s)

/-- Selects the convention of a name. -/
def selectConvention (s : Session) (name : String) : Except Error Unit × Session :=
  match Convention.ofName name with
  | .ok c => (.ok (), { s with settings := s.settings.withConvention c })
  | .error e => (.error (.selection e), s)

/-- Selects whether forward chaining reports its agenda. -/
def selectAgenda (s : Session) (value : Bool) : Session :=
  { s with settings := s.settings.withAgenda value }

/-- Answers a query by truth table. -/
def solveByTable (kb : KnowledgeBase) (query : Sentence) : Except Error TableReport :=
  if kb.covers query then (TruthTable.check kb query).mapError .model
  else .ok (.ofModels kb.symbolNames.toList [] 0)

/-- Answers a query by chaining, in the way that `chain` does. -/
def solveByChaining (chain : HornBase → Symbol → ChainingReport) (kb : KnowledgeBase)
    (query : Sentence) : Except Error ChainingReport := do
  let base ← (HornBase.ofKnowledgeBase kb).mapError .horn
  let goal ← (hornQuery query).mapError .horn
  return if kb.covers query then chain base goal else ⟨false, ∅⟩

/-- Answers a query by search for models. -/
def solveByDpll (convention : Convention) (kb : KnowledgeBase) (query : Sentence) : DpllReport :=
  if kb.covers query then dpllQuery (.ofKnowledgeBase kb) query convention
  else ⟨false, convention, ⟨false, [], none⟩⟩

/-- The query to answer. -/
def currentQuery (s : Session) : Except Error Sentence :=
  match s.query with
  | some query => .ok query
  | none => (Sentence.ofText "True").mapError .parse

/-- Answers the query. -/
def solve (s : Session) : Except Error Report := do
  let query ← s.currentQuery
  match s.settings.algorithm.value with
  | .truthTable => return .table (← solveByTable s.kb query)
  | .forwardChaining => do
    let chain base goal := forwardChain base goal s.settings.agendaInEntailed.value
    return .chaining (← solveByChaining chain s.kb query)
  | .backwardChaining => return .chaining (← solveByChaining backwardChain s.kb query)
  | .dpll => return .dpll (solveByDpll s.settings.convention.value s.kb query)

end Session

end Entailment
