import Entailment.Proofs.Basic
import Entailment.Proofs.KnowledgeBase.Texts
import Entailment.Proofs.Queries.ByTable
import Entailment.Session

/-!
# What can happen to a session

Whatever is done to a session, its knowledge base is one that was told some texts
(`exists_told_performAll`), so what holds of those holds in every session. In particular all symbols
of the sentences are known, and so an answer never fails because a symbol has no value. Answering
fails only under chaining, and only if a sentence or the query does not have the right form.
-/

namespace Entailment.Session

variable {s : Session} {kb : KnowledgeBase} {query : Sentence} {e : Error}

/-- What can be done to a session before its query is answered. -/
inductive Operation
  | tell (text : String)
  | ask (text : String)
  | load (bytes : List UInt8)
  | selectAlgorithm (name : String)
  | selectConvention (name : String)
  | selectAgenda (value : Bool)

/-- The session after an operation, which may have failed. -/
def perform (s : Session) : Operation → Session
  | .tell text => (s.tell text).2
  | .ask text => (s.ask text).2
  | .load bytes => (s.load bytes).2
  | .selectAlgorithm name => (s.selectAlgorithm name).2
  | .selectConvention name => (s.selectConvention name).2
  | .selectAgenda value => s.selectAgenda value

/-- The session after operations in order. -/
def performAll (s : Session) (operations : List Operation) : Session :=
  operations.foldl perform s

/-! ## The knowledge base -/

theorem kb_tell (s : Session) (text : String) : (s.tell text).2.kb = (s.kb.tell text).2 :=
  rfl

theorem kb_ask (s : Session) (text : String) : (s.ask text).2.kb = s.kb := by
  unfold ask
  split <;> rfl

theorem kb_selectAlgorithm (s : Session) (name : String) :
    (s.selectAlgorithm name).2.kb = s.kb := by
  unfold selectAlgorithm
  split <;> rfl

theorem kb_selectConvention (s : Session) (name : String) :
    (s.selectConvention name).2.kb = s.kb := by
  unfold selectConvention
  split <;> rfl

/-- A document that can be read is told, whether or not its query is at fault. -/
theorem kb_load (s : Session) (bytes : List UInt8) :
    (s.load bytes).2.kb = s.kb ∨ ∃ text, (s.load bytes).2.kb = (s.kb.tell text).2 := by
  unfold load
  split
  · exact .inl rfl
  · next document _ =>
    refine .inr ⟨document.sentences, ?_⟩
    rw [← kb_tell]
    split
    · next told => rw [told, kb_ask]
    · next told => rw [told]

/-- An operation leaves the knowledge base as it is or tells it a text. -/
theorem kb_perform (s : Session) (operation : Operation) :
    (s.perform operation).kb = s.kb ∨
      ∃ text, (s.perform operation).kb = (s.kb.tell text).2 := by
  cases operation with
  | tell text => exact .inr ⟨text, rfl⟩
  | ask text => exact .inl (s.kb_ask text)
  | load bytes => exact s.kb_load bytes
  | selectAlgorithm name => exact .inl (s.kb_selectAlgorithm name)
  | selectConvention name => exact .inl (s.kb_selectConvention name)
  | selectAgenda value => exact .inl rfl

theorem exists_kb_performAll (s : Session) (operations : List Operation) :
    ∃ texts, (s.performAll operations).kb = s.kb.tellAll texts := by
  induction operations generalizing s with
  | nil => exact ⟨[], rfl⟩
  | cons operation operations ih =>
    obtain ⟨texts, ht⟩ := ih (s.perform operation)
    show ∃ texts, ((s.perform operation).performAll operations).kb = _
    rw [ht]
    obtain same | ⟨text, told⟩ := s.kb_perform operation
    · exact ⟨texts, by rw [same]⟩
    · exact ⟨text :: texts, by rw [told]; rfl⟩

/-- The knowledge base of a session is always one that was told some texts. -/
theorem exists_told_performAll (operations : List Operation) :
    ∃ texts, (performAll default operations).kb = .told texts :=
  exists_kb_performAll default operations

theorem coherent_performAll (operations : List Operation) :
    (performAll default operations).kb.Coherent := by
  obtain ⟨texts, told⟩ := exists_told_performAll operations
  rw [told]
  exact KnowledgeBase.coherent_told texts

/-! ## Errors of an answer -/

theorem exists_currentQuery (s : Session) : ∃ query, s.currentQuery = .ok query := by
  unfold currentQuery
  split
  · next query _ => exact ⟨query, rfl⟩
  · rw [Sentence.ofText_true]
    exact ⟨_, rfl⟩

theorem exists_solveByTable (h : kb.Coherent) (query : Sentence) :
    ∃ r, solveByTable kb query = .ok r := by
  unfold solveByTable
  split
  · obtain ⟨r, checked, -⟩ := h.tabulates query
    rw [checked]
    exact ⟨r, rfl⟩
  · exact ⟨_, rfl⟩

theorem exists_horn_of_solveByChaining {chain : HornBase → Symbol → ChainingReport}
    (he : solveByChaining chain kb query = .error e) : ∃ fault, e = .horn fault := by
  obtain he | ⟨base, -, he⟩ := bind_eq_error.1 he
  · obtain ⟨fault, -, rfl⟩ := eq_of_mapError_eq_error he
    exact ⟨fault, rfl⟩
  obtain he | ⟨goal, -, he⟩ := bind_eq_error.1 he
  · obtain ⟨fault, -, rfl⟩ := eq_of_mapError_eq_error he
    exact ⟨fault, rfl⟩
  · cases he

/-- Answering fails only under chaining, and only over the form of a sentence or of the query. -/
theorem horn_of_solve_eq_error (h : s.kb.Coherent) (he : s.solve = .error e) :
    (∃ fault, e = .horn fault) ∧ (s.settings.algorithm.value = .forwardChaining ∨
      s.settings.algorithm.value = .backwardChaining) := by
  obtain ⟨query, asked⟩ := s.exists_currentQuery
  rw [solve, asked] at he
  obtain he | ⟨query, -, he⟩ := bind_eq_error.1 he
  · cases he
  split at he
  · obtain ⟨r, solved⟩ := exists_solveByTable h query
    rw [solved] at he
    cases he
  · next forward =>
    obtain he | ⟨r, -, he⟩ := bind_eq_error.1 he
    · exact ⟨exists_horn_of_solveByChaining he, .inl forward⟩
    · cases he
  · next backward =>
    obtain he | ⟨r, -, he⟩ := bind_eq_error.1 he
    · exact ⟨exists_horn_of_solveByChaining he, .inr backward⟩
    · cases he
  · cases he

/-- Whatever is done to a new session, with or without fault, its table knows the symbols of all its
sentences and keeps the positive literal of each name, and its query can be answered, except that
chaining fails over a sentence or a query that does not have the right form. -/
theorem solve_performAll (operations : List Operation) :
    let s := performAll default operations
    (∀ sentence ∈ s.kb.sentences, ∀ name ∈ sentence.symbols, name ∈ s.kb.symbols) ∧
    (∀ name l, s.kb.symbols.get? name = some l → l.name = name ∧ l.negated = false) ∧
    ∀ e, s.solve = .error e →
      (∃ fault, e = .horn fault) ∧ (s.settings.algorithm.value = .forwardChaining ∨
        s.settings.algorithm.value = .backwardChaining) := by
  intro s
  have coherent := coherent_performAll operations
  refine ⟨?_, SymbolTable.canonical_iff.1 coherent.canonical, ?_⟩
  · intro sentence hs name hn
    exact coherent.known sentence hs name (Sentence.mem_symbols.1 hn)
  · intro e he
    exact horn_of_solve_eq_error coherent he

end Entailment.Session
