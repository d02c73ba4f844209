import Entailment.Proofs.Chaining.Rules
import Mathlib.Data.List.Forall2

/-!
# Which knowledge bases are facts and rules

Reading a knowledge base succeeds exactly if every sentence is a symbol or a chain of premises with
a head at its end, `C₁ & (C₂ & … (Cₙ => h))`, all premises being conjunctions of symbols
(`Sentence.IsHorn`). The facts are then the symbols among the sentences, and each chain gives the
rule from the symbols of its premises to its head.

No sentence of this kind is at fault, whatever was read before it. So an error names the first
sentence that is of another kind.
-/

namespace Entailment

variable {s : Sentence} {r : HornRule} {ss : List Sentence} {base : HornBase} {kb : KnowledgeBase}
  {e : HornError}

/-- The wording of an error has the written form of the sentence at fault in it. -/
theorem HornError.exists_message (e : HornError) :
    ∃ lead rest, e.message = lead ++ e.sentence.text ++ rest := by
  cases e <;> exact ⟨_, _, rfl⟩

namespace HornRule

/-! ## Chains of premises -/

/-- The chain of some premises, at least one, with a head at its end: `C₁ & (C₂ & … (Cₙ => h))`. -/
def chain (head : Symbol) : Sentence → List Sentence → Sentence
  | premise, [] => .binary .implication premise (.literal (.positive head))
  | premise, next :: more => .binary .conjunction premise (chain head next more)

/-- The sentence is a chain of conjunctions of symbols with the head of the rule at its end, and the
body is made of their symbols, from left to right. -/
def IsChain (s : Sentence) (r : HornRule) : Prop :=
  ∃ premise more bodies, s = chain r.head premise more ∧
    List.Forall₂ IsConjunction (premise :: more) bodies ∧ r.body = bodies.flatten

theorem states_iff_isChain : States s r ↔ IsChain s r := by
  constructor
  · intro h
    induction h with
    | @implication left body premise head =>
      exact ⟨left, [], [body], rfl, .cons premise .nil, (List.append_nil body).symm⟩
    | @conjunct left right ps body head premise _ ih =>
      obtain ⟨next, more, bodies, rfl, trees, hb⟩ := ih
      refine ⟨left, next :: more, ps :: bodies, rfl, .cons premise trees, ?_⟩
      rw [List.flatten_cons, ← hb]
  · intro h
    obtain ⟨body, head⟩ := r
    obtain ⟨premise, more, bodies, rfl, trees, hb⟩ := h
    cases hb
    induction more generalizing premise bodies with
    | nil =>
      obtain ⟨body, rest, tree, hr, rfl⟩ := List.forall₂_cons_left_iff.1 trees
      obtain rfl := List.forall₂_nil_left_iff.1 hr
      rw [List.flatten_cons, List.flatten_nil, List.append_nil]
      exact .implication tree head
    | cons next more ih =>
      obtain ⟨body, rest, tree, hr, rfl⟩ := List.forall₂_cons_left_iff.1 trees
      exact .conjunct tree (ih next rest hr)

/-- An error in reading a rule names the whole rule. -/
theorem sentence_of_readChain {rule : Sentence} {body : List Symbol}
    (h : readChain rule body s = .error e) : e.sentence = rule := by
  fun_induction readChain rule body s with
  | case1 _ _ _ _ _ ih => exact ih h
  | case3 => cases h
  | case2 | case4 | case5 | case6 =>
    cases h
    rfl

end HornRule

/-- The sentence is a symbol or a chain that gives a rule. -/
def Sentence.IsHorn (s : Sentence) : Prop :=
  (∃ p, s = .literal (.positive p)) ∨ ∃ r, HornRule.IsChain s r

namespace HornBase

/-! ## One sentence -/

theorem add_of_states (h : HornRule.States s r) :
    base.add s = .ok { base with rules := base.rules ++ [r] } := by
  have hr := HornRule.ofSentence_eq_ok_iff.2 h
  cases h with
  | implication | conjunct =>
    rw [add, hr]
    rfl

/-- A sentence of another kind is at fault, and no others are. -/
theorem of_add_eq_error (h : base.add s = .error e) : e.sentence = s ∧ ¬ s.IsHorn := by
  constructor
  · unfold add at h
    split at h
    · cases h
    · cases h
      rfl
    · cases h
      rfl
    · cases h
      rfl
    · rcases bind_eq_error.1 h with h | ⟨r, -, h⟩
      · exact HornRule.sentence_of_readChain h
      · cases h
  · rintro (⟨p, rfl⟩ | ⟨r, hr⟩)
    · cases h
    · rw [add_of_states (HornRule.states_iff_isChain.2 hr)] at h
      cases h

/-! ## All sentences -/

namespace Stated

theorem isHorn (h : Stated ss base) : ∀ s ∈ ss, s.IsHorn := by
  induction h with
  | empty => exact fun s hs => absurd hs List.not_mem_nil
  | fact _ p ih => exact List.forall_mem_append.2 ⟨ih, List.forall_mem_singleton.2 (.inl ⟨p, rfl⟩)⟩
  | rule _ hr ih =>
    have chain := HornRule.states_iff_isChain.1 hr
    exact List.forall_mem_append.2 ⟨ih, List.forall_mem_singleton.2 (.inr ⟨_, chain⟩)⟩

/-- The facts are the literals among the sentences. -/
theorem map_facts (h : Stated ss base) :
    base.facts.map Literal.positive = ss.filterMap Sentence.asLiteral := by
  induction h with
  | empty => rfl
  | fact _ p ih =>
    rw [List.map_append, ih, List.filterMap_append]
    rfl
  | rule _ hr ih =>
    rw [List.filterMap_append, ih]
    cases hr <;> exact (List.append_nil _).symm

/-- The other sentences give the rules, one by one. -/
theorem forall₂_rules (h : Stated ss base) :
    List.Forall₂ HornRule.IsChain (ss.filter (·.asLiteral.isNone)) base.rules := by
  induction h with
  | empty => exact .nil
  | fact _ p ih =>
    rw [List.filter_append]
    exact (List.append_nil _).symm ▸ ih
  | @rule ss base s r _ hr ih =>
    have compound : [s].filter (·.asLiteral.isNone) = [s] := by cases hr <;> rfl
    rw [List.filter_append, compound]
    exact List.rel_append ih (.cons (HornRule.states_iff_isChain.1 hr) .nil)

end Stated

/-- Reading fails at the first sentence of another kind. -/
theorem exists_first_of_eq_error (h : ofKnowledgeBase kb = .error e) :
    ∃ before s after, kb.sentences = before ++ s :: after ∧ (∀ t ∈ before, t.IsHorn) ∧
      ¬ s.IsHorn ∧ e.sentence = s := by
  obtain ⟨before, s, after, mid, split, hm, he⟩ := foldlM_eq_error h
  obtain ⟨same, other⟩ := of_add_eq_error he
  have stated : Stated before mid := stated_of_foldlM .empty hm
  exact ⟨before, s, after, split, stated.isHorn, other, same⟩

/-- Reading a knowledge base succeeds exactly if every sentence is a symbol or a chain. The facts
are then the literals among the sentences, in order, and the rules are those of the chains, in
order. An error is about the first sentence of another kind, and its wording has the written form of
that sentence in it. -/
theorem ofKnowledgeBase_accepts (kb : KnowledgeBase) :
    ((∃ base, ofKnowledgeBase kb = .ok base) ↔ ∀ s ∈ kb.sentences, s.IsHorn) ∧
    (∀ base, ofKnowledgeBase kb = .ok base →
      base.facts.map Literal.positive = kb.factLiterals ∧
      List.Forall₂ HornRule.IsChain (kb.sentences.filter (·.asLiteral.isNone)) base.rules ∧
      ∀ r ∈ base.rules, r.body ≠ []) ∧
    ∀ e, ofKnowledgeBase kb = .error e →
      ∃ before s after, kb.sentences = before ++ s :: after ∧ (∀ t ∈ before, t.IsHorn) ∧
        ¬ s.IsHorn ∧ e.sentence = s ∧ ∃ lead rest, e.message = lead ++ s.text ++ rest := by
  refine ⟨⟨?_, ?_⟩, ?_, ?_⟩
  · intro h
    obtain ⟨base, hb⟩ := h
    exact (stated_of_ofKnowledgeBase hb).isHorn
  · intro all
    cases hb : ofKnowledgeBase kb with
    | ok base => exact ⟨base, rfl⟩
    | error e =>
      obtain ⟨before, s, after, split, -, other, -⟩ := exists_first_of_eq_error hb
      have hs : s ∈ kb.sentences := split ▸ List.mem_append_right _ List.mem_cons_self
      exact absurd (all s hs) other
  · intro base hb
    have stated := stated_of_ofKnowledgeBase hb
    exact ⟨stated.map_facts, stated.forall₂_rules, stated.body_ne_nil⟩
  · intro e h
    obtain ⟨before, s, after, split, all, other, rfl⟩ := exists_first_of_eq_error h
    exact ⟨before, _, after, split, all, other, rfl, e.exists_message⟩

end HornBase

end Entailment
