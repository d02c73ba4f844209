import Entailment.Proofs.KnowledgeBase.Texts
import Entailment.Proofs.Queries.BySearch
import Entailment.Session

/-!
# Queries with unknown symbols

A session does not find a query with a symbol that the knowledge base does not know, whatever the
query says. That is the verdict of refutation only if the knowledge base has a model on which the
query can still be made false by values of the unknown symbols, as it always can if the query is a
literal on one of them. It is not if the known symbols settle the query, as `a` settles `a || b`, or
if the query is true in itself, or if the knowledge base has no model.
-/

namespace Entailment

variable {kb : KnowledgeBase} {query : Sentence} {name : String}

theorem not_found_refutation_iff_exists_value :
    (dpllQuery (.ofKnowledgeBase kb) query .refutation).found = false ↔
      ∃ v, (∀ s ∈ kb.sentences, s.value v = true) ∧ query.value v = false := by
  rw [← Bool.not_eq_true, found_refutation_iff_forall_value, Classical.not_forall]
  exact exists_congr fun v => by rw [Classical.not_imp, Bool.not_eq_true]

namespace KnowledgeBase

theorem not_covers_of_not_mem (asked : name ∈ query.symbolOccurrences)
    (unknown : name ∉ kb.symbols) : kb.covers query = false := by
  rw [← Bool.not_eq_true, covers_iff]
  intro covers
  exact unknown (covers name (Sentence.mem_symbols.2 asked))

/-- A model of the knowledge base leaves the query open if values of the further symbols make it
false. -/
def LeavesOpen (kb : KnowledgeBase) (query : Sentence) (m : Model) : Prop :=
  ∃ full : Model, full.TotalOn (vocabulary kb query) ∧ full.Extends m ∧
    query.evaluate full = .ok false

namespace Coherent

theorem mem_symbolNames (h : kb.Coherent) :
    ∀ s ∈ kb.sentences, ∀ name ∈ s.symbolOccurrences, name ∈ kb.symbolNames :=
  h.known

/-- Refutation does not find a query exactly when some model of the knowledge base, over its own
symbols, leaves the query open. -/
theorem not_found_refutation_iff (h : kb.Coherent) (query : Sentence) :
    (dpllQuery (.ofKnowledgeBase kb) query .refutation).found = false ↔
      ∃ m : Model, m.TotalOn kb.symbolNames ∧ (∀ s ∈ kb.sentences, s.evaluate m = .ok true) ∧
        kb.LeavesOpen query m := by
  rw [not_found_refutation_iff_exists_value]
  constructor
  · intro hv
    obtain ⟨v, told, asked⟩ := hv
    have own : ∀ name ∈ kb.symbolNames, name ∈ vocabulary kb query :=
      fun name hn => SortedSet.mem_union.2 (.inl hn)
    refine ⟨.ofValuation kb.symbolNames v, Model.totalOn_ofValuation _ v, fun s hs => ?_,
      .ofValuation (vocabulary kb query) v, Model.totalOn_ofValuation _ v,
      Model.extends_ofValuation own v, ?_⟩
    · rw [Sentence.evaluate_ofValuation (h.mem_symbolNames s hs), told s hs]
    · rw [Sentence.evaluate_ofValuation (h.mem_vocabulary .consistency query List.mem_cons_self),
        asked]
  · intro hm
    obtain ⟨m, -, told, full, -, completes, asked⟩ := hm
    exact ⟨full.valuation,
      fun s hs => Sentence.value_of_evaluate (told s hs) completes.agrees,
      Sentence.value_of_evaluate asked full.agrees_valuation⟩

/-- A literal on an unknown symbol is left open by every model of the knowledge base. -/
theorem not_found_refutation_literal_iff (h : kb.Coherent) {l : Literal}
    (unknown : l.name ∉ kb.symbols) :
    (dpllQuery (.ofKnowledgeBase kb) (.literal l) .refutation).found = false ↔
      ∃ m : Model, m.TotalOn kb.symbolNames ∧ ∀ s ∈ kb.sentences, s.evaluate m = .ok true := by
  rw [not_found_refutation_iff_exists_value, exists_totalOn_iff_exists_value h.mem_symbolNames]
  constructor
  · intro hv
    obtain ⟨v, told, -⟩ := hv
    exact ⟨v, told⟩
  · intro hv
    obtain ⟨v, told⟩ := hv
    refine ⟨v.override [l.negate], fun s hs => ?_, ?_⟩
    · rw [← told s hs]
      refine Sentence.value_congr fun name hn => Valuation.override_of_forall_ne ?_
      rintro k hk rfl
      rw [List.mem_singleton.1 hk] at hn
      exact unknown (h.known s hs _ hn)
    · have negated := Valuation.override_of_mem (v := v) (List.pairwise_singleton _ _)
        (List.mem_singleton_self l.negate)
      rwa [Literal.value_negate, Bool.not_eq_true'] at negated

end Coherent

end KnowledgeBase

namespace Session

theorem found_solveByDpll_of_not_covers (unknown : kb.covers query = false)
    (convention : Convention) : (solveByDpll convention kb query).found = false := by
  rw [solveByDpll, unknown]
  rfl

/-- A query with an unknown symbol is not found by a session. The search itself gives the same
verdict exactly when some model of the knowledge base leaves the query open. -/
theorem solveByDpll_agrees_iff (texts : List String) (query : Sentence)
    (unknown : (KnowledgeBase.told texts).covers query = false) :
    (solveByDpll .refutation (.told texts) query).found = false ∧
    ((dpllQuery (.ofKnowledgeBase (.told texts)) query .refutation).found =
        (solveByDpll .refutation (.told texts) query).found ↔
      ∃ m : Model, m.TotalOn (KnowledgeBase.told texts).symbolNames ∧
        (∀ s ∈ (KnowledgeBase.told texts).sentences, s.evaluate m = .ok true) ∧
        (KnowledgeBase.told texts).LeavesOpen query m) := by
  have skipped := found_solveByDpll_of_not_covers unknown .refutation
  refine ⟨skipped, ?_⟩
  rw [skipped]
  exact (KnowledgeBase.coherent_told texts).not_found_refutation_iff query

/-- The known symbol does not settle the query, so the verdicts agree. -/
theorem solveByDpll_agrees_conjunction :
    let a : Symbol := ⟨"a", by decide⟩
    let b : Symbol := ⟨"b", by decide⟩
    let query : Sentence := .binary .conjunction (.literal (.positive a)) (.literal (.positive b))
    (KnowledgeBase.told ["a"]).covers query = false ∧
      (solveByDpll .refutation (.told ["a"]) query).found = false ∧
      (dpllQuery (.ofKnowledgeBase (.told ["a"])) query .refutation).found = false ∧
      ∃ m : Model, m.TotalOn (KnowledgeBase.told ["a"]).symbolNames ∧
        (∀ s ∈ (KnowledgeBase.told ["a"]).sentences, s.evaluate m = .ok true) ∧
        (KnowledgeBase.told ["a"]).LeavesOpen query m := by
  intro a b query
  have fact : KnowledgeBase.sentencesIn "a" = .ok [.literal (.positive a)] :=
    KnowledgeBase.sentencesIn_of_derives (by decide) (.single (.symbol a))
  obtain ⟨told, known⟩ := KnowledgeBase.told_singleton fact
  have asked : "b" ∈ query.symbolOccurrences := by decide
  have unknown := KnowledgeBase.not_covers_of_not_mem asked (mt (known "b").1 (by decide))
  have found : (dpllQuery (.ofKnowledgeBase (.told ["a"])) query .refutation).found = false := by
    rw [not_found_refutation_iff_exists_value, told]
    exact ⟨fun name => name == "a", by decide, by decide⟩
  obtain ⟨skipped, agrees⟩ := solveByDpll_agrees_iff ["a"] query unknown
  exact ⟨unknown, skipped, found, agrees.1 (found.trans skipped.symm)⟩

/-- The known symbol settles the query: refutation finds it, and the session does not. -/
theorem solveByDpll_disagrees :
    let a : Symbol := ⟨"a", by decide⟩
    let b : Symbol := ⟨"b", by decide⟩
    let query : Sentence := .binary .disjunction (.literal (.positive a)) (.literal (.positive b))
    (KnowledgeBase.told ["a"]).covers query = false ∧
      (solveByDpll .refutation (.told ["a"]) query).found = false ∧
      (dpllQuery (.ofKnowledgeBase (.told ["a"])) query .refutation).found = true := by
  intro a b query
  have fact : KnowledgeBase.sentencesIn "a" = .ok [.literal (.positive a)] :=
    KnowledgeBase.sentencesIn_of_derives (by decide) (.single (.symbol a))
  obtain ⟨told, known⟩ := KnowledgeBase.told_singleton fact
  have asked : "b" ∈ query.symbolOccurrences := by decide
  have unknown := KnowledgeBase.not_covers_of_not_mem asked (mt (known "b").1 (by decide))
  refine ⟨unknown, found_solveByDpll_of_not_covers unknown .refutation, ?_⟩
  rw [found_refutation_iff_forall_value, told]
  intro v told
  have value := told _ (List.mem_singleton_self _)
  show ((Literal.positive a).value v || (Literal.positive b).value v) = true
  rw [Bool.or_eq_true]
  exact .inl value

end Session

end Entailment
