import Entailment.Horn.Basic
import Entailment.Proofs.Basic
import Entailment.Proofs.Chaining.Closure

/-!
# Sentences as facts and rules

A sentence states a rule if it is a chain of conjunctions that ends in an implication, all premises
being conjunctions of symbols (`States`). Reading a knowledge base succeeds just if every sentence
is a symbol or states a rule (`HornBase.Stated`).

Where the sentences hold the facts and rules do too. An implication says just what its rule says,
but a conjunction says more: it is true only if the conjuncts before the implication are.
-/

namespace Entailment

variable {s left right : Sentence} {r : HornRule} {body : List Symbol} {v : Valuation}

theorem Sentence.asSymbol_eq_some_iff {p : Symbol} :
    s.asSymbol = some p ↔ s = .literal (.positive p) := by
  unfold asSymbol
  split
  · next q =>
    rw [Option.some.injEq]
    constructor
    · rintro rfl
      rfl
    · intro h
      cases h
      rfl
  · next hs =>
    constructor
    · intro h
      cases h
    · intro h
      exact absurd h (hs p)

namespace HornRule

/-! ## The sentences that state a rule -/

/-- The sentence is a conjunction, nested in any way, of the symbols from left to right. -/
inductive IsConjunction : Sentence → List Symbol → Prop
  | symbol (p : Symbol) : IsConjunction (.literal (.positive p)) [p]
  | both {left right : Sentence} {ps qs : List Symbol} (l : IsConjunction left ps)
    (r : IsConjunction right qs) : IsConjunction (.binary .conjunction left right) (ps ++ qs)

/-- The sentence states the rule: it is an implication from a conjunction to the head, perhaps
behind further conjunctions, whose symbols come first in the body. -/
inductive States : Sentence → HornRule → Prop
  | implication {left : Sentence} {body : List Symbol} (premise : IsConjunction left body)
    (head : Symbol) :
    States (.binary .implication left (.literal (.positive head))) ⟨body, head⟩
  | conjunct {left right : Sentence} {ps body : List Symbol} {head : Symbol}
    (premise : IsConjunction left ps) (rest : States right ⟨body, head⟩) :
    States (.binary .conjunction left right) ⟨ps ++ body, head⟩

theorem bodyOf?_eq_some_iff : bodyOf? s = some body ↔ IsConjunction s body := by
  constructor
  · intro h
    fun_induction bodyOf? s generalizing body with
    | case1 left right ihl ihr =>
      obtain ⟨ps, hl, h⟩ := Option.bind_eq_some_iff.1 h
      obtain ⟨qs, hr, h⟩ := Option.bind_eq_some_iff.1 h
      cases h
      exact .both (ihl hl) (ihr hr)
    | case2 s hs =>
      obtain ⟨p, hp, rfl⟩ := Option.map_eq_some_iff.1 h
      rw [Sentence.asSymbol_eq_some_iff.1 hp]
      exact .symbol p
  · intro h
    induction h with
    | symbol p => rfl
    | both _ _ ihl ihr =>
      rw [bodyOf?, ihl, ihr]
      rfl

/-- Reading goes on from a body exactly where a rule is stated, and adds the body of that rule. -/
theorem readChain_eq_ok_iff {rule : Sentence} :
    readChain rule body s = .ok r ↔ ∃ ps head, States s ⟨ps, head⟩ ∧ r = ⟨body ++ ps, head⟩ := by
  constructor
  · intro h
    fun_induction readChain rule body s with
    | case1 body left right more hm ih =>
      obtain ⟨ps, head, hs, rfl⟩ := ih h
      exact ⟨more ++ ps, head, .conjunct (bodyOf?_eq_some_iff.1 hm) hs,
        by rw [List.append_assoc]⟩
    | case3 body left right more head hh hm =>
      cases h
      rw [Sentence.asSymbol_eq_some_iff.1 hh]
      exact ⟨more, head, .implication (bodyOf?_eq_some_iff.1 hm) head, rfl⟩
    | case2 | case4 | case5 | case6 => cases h
  · intro h
    obtain ⟨ps, head, hs, rfl⟩ := h
    generalize hr : (⟨ps, head⟩ : HornRule) = r at hs
    induction hs generalizing body ps head with
    | implication premise head' =>
      cases hr
      rw [readChain, bodyOf?_eq_some_iff.2 premise]
      rfl
    | @conjunct left right qs body' head' premise _ ih =>
      cases hr
      rw [readChain, bodyOf?_eq_some_iff.2 premise]
      rw [← List.append_assoc]
      exact ih body' head' rfl

theorem ofSentence_eq_ok_iff : ofSentence s = .ok r ↔ States s r := by
  rw [ofSentence, readChain_eq_ok_iff]
  constructor
  · intro h
    obtain ⟨ps, head, hs, rfl⟩ := h
    exact hs
  · intro h
    exact ⟨r.body, r.head, h, rfl⟩

/-! ## What rules say -/

theorem IsConjunction.ne_nil (h : IsConjunction s body) : body ≠ [] := by
  induction h with
  | symbol p => exact List.cons_ne_nil _ _
  | both _ _ ihl _ => exact List.append_ne_nil_of_left_ne_nil ihl _

theorem States.body_ne_nil (h : States s r) : r.body ≠ [] := by
  cases h with
  | implication premise _ => exact premise.ne_nil
  | conjunct premise _ => exact List.append_ne_nil_of_left_ne_nil premise.ne_nil _

theorem value_positive (p : Symbol) (v : Valuation) :
    (Sentence.literal (.positive p)).value v = v p.name :=
  Bool.bne_false _

theorem IsConjunction.value_eq_true_iff (h : IsConjunction s body) :
    s.value v = true ↔ ∀ p ∈ body, v p.name = true := by
  induction h with
  | symbol p => rw [value_positive, List.forall_mem_singleton]
  | both _ _ ihl ihr =>
    rw [Sentence.value, Connective.apply, Bool.and_eq_true, ihl, ihr, List.forall_mem_append]

theorem value_implication_iff {p : Symbol} (h : IsConjunction left body) :
    (Sentence.binary .implication left (.literal (.positive p))).value v = true ↔
      Holds ⟨body, p⟩ v := by
  rw [Sentence.value, Connective.apply, value_positive, Holds, ← h.value_eq_true_iff]
  cases left.value v <;> simp

/-- A sentence says at least what the rule says that it states. -/
theorem States.holds (h : States s r) (hv : s.value v = true) : r.Holds v := by
  induction h with
  | implication premise head => exact (value_implication_iff premise).1 hv
  | conjunct _ _ ih =>
    rw [Sentence.value, Connective.apply, Bool.and_eq_true] at hv
    intro body
    exact ih hv.2 (List.forall_mem_append.1 body).2

/-- Unless it is a conjunction, it says no more. -/
theorem States.value_of_holds (h : States s r) (hr : r.Holds v)
    (top : ∀ left right, s ≠ .binary .conjunction left right) : s.value v = true := by
  cases h with
  | implication premise head => exact (value_implication_iff premise).2 hr
  | conjunct _ _ => exact absurd rfl (top _ _)

end HornRule

/-! ## Knowledge bases -/

namespace HornBase

variable {base : HornBase} {kb : KnowledgeBase} {ss : List Sentence}

/-- The sentences state the base: every sentence is one of the facts or states one of the rules, in
the same order. -/
inductive Stated : List Sentence → HornBase → Prop
  | empty : Stated [] .empty
  | fact {ss : List Sentence} {base : HornBase} (before : Stated ss base) (p : Symbol) :
    Stated (ss ++ [.literal (.positive p)]) { base with facts := base.facts ++ [p] }
  | rule {ss : List Sentence} {base : HornBase} {s : Sentence} {r : HornRule}
    (before : Stated ss base) (h : HornRule.States s r) :
    Stated (ss ++ [s]) { base with rules := base.rules ++ [r] }

theorem add_eq_ok {later : HornBase} (h : base.add s = .ok later) :
    (∃ p, s = .literal (.positive p) ∧ later = { base with facts := base.facts ++ [p] }) ∨
      ∃ r, HornRule.States s r ∧ later = { base with rules := base.rules ++ [r] } := by
  unfold add at h
  split at h
  · next p =>
    cases h
    exact .inl ⟨p, rfl, rfl⟩
  · cases h
  · cases h
  · cases h
  · obtain ⟨r, hr, h⟩ := bind_eq_ok.1 h
    cases h
    exact .inr ⟨r, HornRule.ofSentence_eq_ok_iff.1 hr, rfl⟩

theorem stated_of_foldlM {before : List Sentence} {start : HornBase} (hs : Stated before start)
    (h : ss.foldlM add start = .ok base) : Stated (before ++ ss) base := by
  induction ss generalizing before start with
  | nil =>
    cases h
    rwa [List.append_nil]
  | cons s ss ih =>
    rw [List.foldlM_cons] at h
    obtain ⟨mid, hm, h⟩ := bind_eq_ok.1 h
    rw [List.append_cons]
    rcases add_eq_ok hm with ⟨p, rfl, rfl⟩ | ⟨r, hr, rfl⟩
    · exact ih (hs.fact p) h
    · exact ih (hs.rule hr) h

theorem stated_of_ofKnowledgeBase (h : ofKnowledgeBase kb = .ok base) :
    Stated kb.sentences base :=
  stated_of_foldlM .empty h

namespace Stated

theorem body_ne_nil (h : Stated ss base) : ∀ r ∈ base.rules, r.body ≠ [] := by
  induction h with
  | empty => exact fun r hr => absurd hr List.not_mem_nil
  | fact _ _ ih => exact ih
  | rule _ h ih => exact List.forall_mem_append.2 ⟨ih, List.forall_mem_singleton.2 h.body_ne_nil⟩

/-- Where the sentences are true, the facts and rules are. -/
theorem satisfied (h : Stated ss base) (hv : ∀ s ∈ ss, s.value v = true) : base.Satisfied v := by
  induction h with
  | empty => exact ⟨fun p hp => absurd hp List.not_mem_nil, fun r hr => absurd hr List.not_mem_nil⟩
  | fact _ p ih =>
    obtain ⟨hss, hp⟩ := List.forall_mem_append.1 hv
    have hb := ih hss
    rw [List.forall_mem_singleton, HornRule.value_positive] at hp
    exact ⟨List.forall_mem_append.2 ⟨hb.facts, List.forall_mem_singleton.2 hp⟩, hb.rules⟩
  | rule _ hr ih =>
    obtain ⟨hss, hs⟩ := List.forall_mem_append.1 hv
    have hb := ih hss
    have hh := hr.holds (hs _ (List.mem_singleton_self _))
    exact ⟨hb.facts, List.forall_mem_append.2 ⟨hb.rules, List.forall_mem_singleton.2 hh⟩⟩

/-- Where the facts and rules are true, the sentences are, unless one is a conjunction. -/
theorem value_of_satisfied (h : Stated ss base) (hv : base.Satisfied v)
    (top : ∀ s ∈ ss, ∀ left right, s ≠ .binary .conjunction left right) :
    ∀ s ∈ ss, s.value v = true := by
  induction h with
  | empty => exact fun s hs => absurd hs List.not_mem_nil
  | fact _ p ih =>
    obtain ⟨htop, -⟩ := List.forall_mem_append.1 top
    obtain ⟨hf, hp⟩ := List.forall_mem_append.1 hv.facts
    have hp' := List.forall_mem_singleton.1 hp
    refine List.forall_mem_append.2 ⟨ih ⟨hf, hv.rules⟩ htop, List.forall_mem_singleton.2 ?_⟩
    rwa [HornRule.value_positive]
  | rule _ hr ih =>
    obtain ⟨htop, hs⟩ := List.forall_mem_append.1 top
    obtain ⟨hrs, hh⟩ := List.forall_mem_append.1 hv.rules
    refine List.forall_mem_append.2 ⟨ih ⟨hv.facts, hrs⟩ htop, List.forall_mem_singleton.2 ?_⟩
    exact hr.value_of_holds (hh _ (List.mem_singleton_self _)) (hs _ (List.mem_singleton_self _))

end Stated

end HornBase

end Entailment
