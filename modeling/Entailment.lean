import Entailment.Text.CodeRange
import Entailment.Text.Letter
import Entailment.Text.Number
import Entailment.Text.Blank
import Entailment.Text.Bytes
import Entailment.Ascending
import Entailment.SortedSet
import Entailment.SortedMap
import Entailment.ParseError
import Entailment.Model
import Entailment.Literal
import Entailment.Sentence.Basic
import Entailment.Sentence.Token
import Entailment.Sentence.Bracket
import Entailment.SymbolTable
import Entailment.Sentence.Outline
import Entailment.Sentence.Parser
import Entailment.Clause
import Entailment.Sentence.Expansion
import Entailment.Sentence.NegationForm
import Entailment.Sentence.Distribution
import Entailment.Sentence.Clausal
import Entailment.Dpll.Branch
import Entailment.Dpll.Search
import Entailment.KnowledgeBase
import Entailment.ClauseBase
import Entailment.Settings
import Entailment.Dpll.Query
import Entailment.Horn.Basic
import Entailment.Horn.Forward
import Entailment.Horn.Backward
import Entailment.TruthTable.Counting
import Entailment.TruthTable.Report
import Entailment.TruthTable.Basic
import Entailment.Report
import Entailment.Document
import Entailment.Error
import Entailment.Session
import Entailment.CommandLine.Arguments
import Entailment.CommandLine.Run
import Entailment.Main
import Entailment.Proofs.Basic
import Entailment.Proofs.Valuation
import Entailment.Proofs.Search.Branch
import Entailment.Proofs.Search.Decision
import Entailment.Proofs.Search.Simplification
import Entailment.Proofs.Search.Confluence
import Entailment.Proofs.Search.Recursion
import Entailment.Proofs.Search.Widening
import Entailment.Proofs.Clausal.Rewriting
import Entailment.Proofs.Clausal.Equivalence
import Entailment.Proofs.Clausal.Shape
import Entailment.Proofs.Clausal.Distribution
import Entailment.Proofs.Clausal.Clauses
import Entailment.Proofs.Clausal.ProductForm
import Entailment.Proofs.Clausal.Stages
import Entailment.Proofs.Reading.Registering
import Entailment.Proofs.Reading.Tokens
import Entailment.Proofs.Reading.LeftmostToken
import Entailment.Proofs.Reading.Atoms
import Entailment.Proofs.Reading.Grammar
import Entailment.Proofs.Reading.Occurrences
import Entailment.Proofs.Reading.Slices
import Entailment.Proofs.Reading.Brackets
import Entailment.Proofs.KnowledgeBase.Telling
import Entailment.Proofs.Queries.BySearch
import Entailment.Proofs.Reading.Writing
import Entailment.Proofs.Clausal.Filtering
import Entailment.Proofs.Chaining.Closure
import Entailment.Proofs.Chaining.Backward
import Entailment.Proofs.Chaining.Forward
import Entailment.Proofs.Chaining.Rules
import Entailment.Proofs.Chaining.Acceptance
import Entailment.Proofs.Chaining.Iterations
import Entailment.Proofs.Chaining.Memory
import Entailment.Proofs.Queries.ByChaining
import Entailment.Proofs.TruthTable.Counting
import Entailment.Proofs.TruthTable.Candidates
import Entailment.Proofs.TruthTable.Widening
import Entailment.Proofs.Queries.ByTable
import Entailment.Proofs.TruthTable.Enumeration
import Entailment.Proofs.Queries.Agreement
import Entailment.Proofs.KnowledgeBase.Texts
import Entailment.Proofs.KnowledgeBase.Splitting
import Entailment.Proofs.Chaining.Writing
import Entailment.Proofs.Queries.Countermodels
import Entailment.Proofs.Queries.UnknownSymbols
import Entailment.Proofs.Sessions.Operations
import Entailment.Proofs.Sessions.Loading
import Entailment.Proofs.Sessions.FailedTells
import Entailment.Proofs.Sessions.Documents
