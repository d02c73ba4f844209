import Entailment.Proofs.Basic
import Entailment.Proofs.Queries.BySearch
import Entailment.Proofs.TruthTable.Candidates

/-!
# Answers by truth table

Trying only the models that keep the values of facts loses none: every model of the sentences keeps
these values. So the report lists exactly the total models on which all sentences and the query are
true, in ascending order, and counts exactly those on which all sentences are.
-/

namespace Entailment

/-- The report of trying all total models on the symbols of the knowledge base and the query. -/
structure TableReport.Tabulates (r : TableReport) (kb : KnowledgeBase) (query : Sentence) :
    Prop where
  mem_symbols : ∀ name, name ∈ r.symbols ↔ name ∈ kb.symbols ∨ name ∈ query.symbols
  ascending_symbols : r.symbols.Pairwise fun x y => compare x y = .lt
  mem_models : ∀ m, m ∈ r.models ↔ m.TotalOn (vocabulary kb query) ∧
    (∀ s ∈ kb.sentences, s.evaluate m = .ok true) ∧ query.evaluate m = .ok true
  /-- So no model is listed twice. -/
  ascending_models : r.models.Pairwise fun m n => compare m n = .lt
  /-- The number of models of the knowledge base is the length of a list of them without
  repetitions. -/
  kbModelCount : ∃ kbModels : List Model, kbModels.Nodup ∧
    (∀ m, m ∈ kbModels ↔ m.TotalOn (vocabulary kb query) ∧
      ∀ s ∈ kb.sentences, s.evaluate m = .ok true) ∧
    r.kbModelCount = kbModels.length

namespace TruthTable

variable {kb : KnowledgeBase} {query : Sentence} {m : Model}

/-- The models tried on which every sentence is true. -/
def kbModels (kb : KnowledgeBase) (query : Sentence) : List Model :=
  (candidates kb query).filter fun m => kb.sentences.all (·.value m.valuation)

theorem totalOn_of_mem_candidates (h : kb.Coherent) (hm : m ∈ candidates kb query) :
    m.TotalOn (vocabulary kb query) :=
  ((mem_candidates_iff h).1 hm).1

/-- Trying a total model never fails. -/
theorem holdsOn_of_totalOn (h : kb.Coherent) (total : m.TotalOn (vocabulary kb query)) :
    kb.holdsOn m = .ok (kb.sentences.all (·.value m.valuation)) := by
  refine allM_eq_ok fun s hs => ?_
  exact Sentence.evaluate_of_values (h.values total s (List.mem_cons_of_mem _ hs))

theorem evaluate_of_totalOn (h : kb.Coherent) (total : m.TotalOn (vocabulary kb query)) :
    query.evaluate m = .ok (query.value m.valuation) :=
  Sentence.evaluate_of_values (h.values total query List.mem_cons_self)

theorem check_of_coherent (h : kb.Coherent) (query : Sentence) :
    check kb query = .ok (.ofModels (vocabulary kb query).toList
      ((kbModels kb query).filter fun m => query.value m.valuation)
      (kbModels kb query).length) := by
  have told : (candidates kb query).filterM kb.holdsOn = .ok (kbModels kb query) := by
    refine filterM_eq_ok fun m hm => ?_
    exact holdsOn_of_totalOn h (totalOn_of_mem_candidates h hm)
  have asked : (kbModels kb query).filterM query.evaluate =
      .ok ((kbModels kb query).filter fun m => query.value m.valuation) := by
    refine filterM_eq_ok fun m hm => ?_
    exact evaluate_of_totalOn h (totalOn_of_mem_candidates h (List.mem_filter.1 hm).1)
  rw [check, told]
  show (kbModels kb query).filterM query.evaluate >>= _ = _
  rw [asked]
  rfl

theorem mem_kbModels_iff (h : kb.Coherent) : m ∈ kbModels kb query ↔
    m.TotalOn (vocabulary kb query) ∧ ∀ s ∈ kb.sentences, s.evaluate m = .ok true := by
  rw [kbModels, List.mem_filter, List.all_eq_true]
  constructor
  · intro hm
    obtain ⟨hc, told⟩ := hm
    have total := totalOn_of_mem_candidates h hc
    refine ⟨total, fun s hs => ?_⟩
    have values := h.values total s (List.mem_cons_of_mem _ hs)
    exact Sentence.evaluate_eq_ok_iff.2 ⟨values, told s hs⟩
  · intro hm
    obtain ⟨total, told⟩ := hm
    have keeps := keeps_of_forall_evaluate told
    exact ⟨(mem_candidates_iff h).2 ⟨total, keeps⟩,
      fun s hs => (Sentence.evaluate_eq_ok_iff.1 (told s hs)).2⟩

theorem pairwise_kbModels (h : kb.Coherent) (query : Sentence) :
    (kbModels kb query).Pairwise fun m n => compare m n = .lt :=
  (pairwise_candidates h query).filter _

theorem nodup_kbModels (h : kb.Coherent) (query : Sentence) : (kbModels kb query).Nodup :=
  Model.nodup_of_ascending (pairwise_kbModels h query)

end TruthTable

/-- Models that are in order already are listed as they are. -/
theorem TableReport.models_ofModels {symbols : List String} {models : List Model} {count : Nat}
    (h : models.Pairwise fun m n => compare m n = .lt) :
    (ofModels symbols models count).models = models := by
  refine List.mergeSort_of_pairwise (h.imp fun {m n} lt => ?_)
  rw [lt]
  rfl

open TruthTable in
theorem KnowledgeBase.Coherent.tabulates {kb : KnowledgeBase} (h : kb.Coherent)
    (query : Sentence) : ∃ r, check kb query = .ok r ∧ r.Tabulates kb query := by
  have sorted := (pairwise_kbModels h query).filter fun m => query.value m.valuation
  refine ⟨_, check_of_coherent h query, ?_⟩
  constructor
  case mem_symbols =>
    intro name
    exact SortedSet.mem_union
  case ascending_symbols => exact (vocabulary kb query).ascending
  case mem_models =>
    intro m
    rw [TableReport.models_ofModels sorted, List.mem_filter, mem_kbModels_iff h, and_assoc]
    refine and_congr_right fun total => and_congr_right fun _ => ?_
    rw [Sentence.evaluate_eq_ok_iff,
      and_iff_right (h.values total query List.mem_cons_self)]
  case ascending_models =>
    rw [TableReport.models_ofModels sorted]
    exact sorted
  case kbModelCount =>
    exact ⟨kbModels kb query, nodup_kbModels h query, fun m => mem_kbModels_iff h, rfl⟩

/-- A truth table is exact, whatever was told, with or without fault, and whatever is asked. -/
theorem check_tabulates (texts : List String) (query : Sentence) :
    ∃ r, TruthTable.check (.told texts) query = .ok r ∧ r.Tabulates (.told texts) query :=
  (KnowledgeBase.coherent_told texts).tabulates query

end Entailment
