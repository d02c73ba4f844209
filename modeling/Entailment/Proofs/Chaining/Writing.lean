import Entailment.Proofs.Chaining.Acceptance
import Entailment.Proofs.KnowledgeBase.Texts

/-!
# Telling facts and rules

The written form of a rule has no brackets. It is not read as the sentence that the rule comes from,
which may have brackets anywhere, but as the chain that has one symbol for each premise, and this
chain states the same rule. So a base that is told again, its facts first and then its rules, is the
same base.
-/

namespace Entailment

open Text

variable {r : HornRule} {base : HornBase} {kb : KnowledgeBase}

/-! ## Written forms of rules -/

namespace HornRule

theorem withoutBlanks_text (r : HornRule) :
    withoutBlanks r.text.toList =
      ['&'].intercalate (r.body.map (·.name.toList)) ++
        Connective.implication.token.toList ++ r.head.name.toList := by
  have conjunction : withoutBlanks " & ".toList = ['&'] := by decide
  have implication : withoutBlanks " => ".toList = Connective.implication.token.toList := by decide
  have names : (r.body.map Symbol.name).map (withoutBlanks ·.toList) =
      r.body.map (·.name.toList) := by
    rw [List.map_map]
    exact List.map_congr_left fun p _ => withoutBlanks_name p
  rw [text, String.toList_append, String.toList_append, withoutBlanks_append,
    withoutBlanks_append, String.toList_intercalate, withoutBlanks_intercalate, conjunction,
    implication, withoutBlanks_name, List.map_map]
  exact congrArg (fun parts => ['&'].intercalate parts ++ _ ++ _) names

/-- Symbols with a sign of conjunction between any two and an implication at the end are derivable
as the chain of the symbols. -/
theorem derives_chain (head p : Symbol) (more : List Symbol) :
    Derives .sentence
      (['&'].intercalate ((p :: more).map (·.name.toList)) ++
        Connective.implication.token.toList ++ head.name.toList)
      (chain head (.literal (.positive p)) (more.map fun q => .literal (.positive q))) := by
  induction more generalizing p with
  | nil =>
    rw [List.map_singleton, List.intercalate_singleton]
    exact .joined .implication (.symbol p) (.single (.symbol head))
  | cons next more ih =>
    have joined := Derives.joined .conjunction (.symbol p) (ih next)
    rw [List.map_cons, List.map_cons, List.intercalate_cons_cons,
      List.append_assoc _ _ head.name.toList, List.append_assoc]
    rw [List.append_assoc _ _ head.name.toList] at joined
    exact joined

theorem isConjunction_symbols (ps : List Symbol) :
    List.Forall₂ IsConjunction (ps.map fun p => .literal (.positive p)) (ps.map ([·])) := by
  induction ps with
  | nil => exact .nil
  | cons p ps ih => exact .cons (.symbol p) ih

/-- The written form of a rule is derivable as a sentence that states the rule. -/
theorem exists_derives_text (h : r.body ≠ []) :
    ∃ s, Derives .sentence (withoutBlanks r.text.toList) s ∧ States s r := by
  obtain ⟨body, head⟩ := r
  cases body with
  | nil => exact absurd rfl h
  | cons p more =>
    have derived := derives_chain head p more
    rw [← withoutBlanks_text ⟨p :: more, head⟩] at derived
    refine ⟨_, derived, states_iff_isChain.2 ⟨_, _, _, rfl, isConjunction_symbols (p :: more), ?_⟩⟩
    rw [← List.flatMap_def, List.flatMap_singleton']

end HornRule

/-! ## Written forms of bases -/

namespace HornBase

/-- The written forms of the facts and then of the rules, with a semicolon between any two. -/
def telling (base : HornBase) : String :=
  ";".intercalate ((base.facts.map fun p => (Literal.positive p).text) ++
    base.rules.map HornRule.text)

theorem foldlM_add_facts (facts : List Symbol) :
    (facts.map fun p => Sentence.literal (.positive p)).foldlM add base =
      .ok { base with facts := base.facts ++ facts } := by
  induction facts generalizing base with
  | nil =>
    rw [List.append_nil]
    rfl
  | cons p facts ih =>
    rw [List.map_cons, List.foldlM_cons, List.append_cons base.facts p facts]
    exact bind_eq_ok.2 ⟨{ base with facts := base.facts ++ [p] }, rfl, ih⟩

theorem foldlM_add_rules {ss : List Sentence} {rules : List HornRule}
    (h : List.Forall₂ HornRule.States ss rules) :
    ss.foldlM add base = .ok { base with rules := base.rules ++ rules } := by
  induction h generalizing base with
  | nil =>
    rw [List.append_nil]
    rfl
  | @cons s r ss rules hs _ ih =>
    rw [List.foldlM_cons, List.append_cons base.rules r rules]
    exact bind_eq_ok.2 ⟨{ base with rules := base.rules ++ [r] }, add_of_states hs, ih⟩

/-- Sentences that are symbols first and then state rules give these facts and rules. -/
theorem ofKnowledgeBase_of_sentences {ss : List Sentence}
    (hs : kb.sentences = (base.facts.map fun p => .literal (.positive p)) ++ ss)
    (h : List.Forall₂ HornRule.States ss base.rules) : ofKnowledgeBase kb = .ok base := by
  rw [ofKnowledgeBase, hs, List.foldlM_append]
  exact bind_eq_ok.2 ⟨⟨base.facts, []⟩, foldlM_add_facts base.facts, foldlM_add_rules h⟩

theorem derives_facts (facts : List Symbol) :
    List.Forall₂ (fun part s => Derives .sentence (withoutBlanks part.toList) s)
      (facts.map fun p => (Literal.positive p).text)
      (facts.map fun p => .literal (.positive p)) := by
  induction facts with
  | nil => exact .nil
  | cons p facts ih =>
    refine .cons (.single ?_) ih
    exact Sentence.derives_text (.literal (.positive p))

theorem exists_derives_rules {rules : List HornRule} (h : ∀ r ∈ rules, r.body ≠ []) :
    ∃ ss, List.Forall₂ (fun part s => Derives .sentence (withoutBlanks part.toList) s)
        (rules.map HornRule.text) ss ∧ List.Forall₂ HornRule.States ss rules := by
  induction rules with
  | nil => exact ⟨[], .nil, .nil⟩
  | cons r rules ih =>
    obtain ⟨hr, hrs⟩ := List.forall_mem_cons.1 h
    obtain ⟨s, hd, hs⟩ := HornRule.exists_derives_text hr
    obtain ⟨ss, hds, hss⟩ := ih hrs
    exact ⟨s :: ss, .cons hd hds, .cons hs hss⟩

/-- A base read from a knowledge base can be told again, and what was told is read as the same
base. -/
theorem tell_telling (hb : ofKnowledgeBase kb = .ok base) :
    ∃ again, KnowledgeBase.empty.tell base.telling =
        (.ok (base.facts.length + base.rules.length), again) ∧
      ofKnowledgeBase again = .ok base := by
  obtain ⟨ss, derived, states⟩ :=
    exists_derives_rules (stated_of_ofKnowledgeBase hb).body_ne_nil
  have fresh : KnowledgeBase.sentencesIn base.telling =
      .ok ((base.facts.map fun p => .literal (.positive p)) ++ ss) :=
    KnowledgeBase.sentencesIn_intercalate (List.rel_append (derives_facts base.facts) derived)
  obtain ⟨again, told, sentences⟩ :=
    KnowledgeBase.tell_eq_ok KnowledgeBase.coherent_empty.canonical fresh
  rw [List.length_append, List.length_map, states.length_eq] at told
  exact ⟨again, told, ofKnowledgeBase_of_sentences sentences states⟩

/-- The rule is told without the brackets that its sentence has. -/
theorem tell_telling_brackets :
    let a : Symbol := ⟨"a", by decide⟩
    let b : Symbol := ⟨"b", by decide⟩
    let c : Symbol := ⟨"c", by decide⟩
    let both (p q : Sentence) : Sentence := .binary .conjunction p q
    let one (p : Symbol) : Sentence := .literal (.positive p)
    let kb : KnowledgeBase :=
      ⟨[.binary .implication (both (both (one a) (one b)) (one a)) (one c), one a], ∅⟩
    let base : HornBase := ⟨[a], [⟨[a, b, a], c⟩]⟩
    ofKnowledgeBase kb = .ok base ∧ base.telling = "a;a & b & a => c" ∧
      ∃ again, KnowledgeBase.empty.tell base.telling = (.ok 2, again) ∧
        ofKnowledgeBase again = .ok base := by
  intro a b c both one kb base
  have hb : ofKnowledgeBase kb = .ok base := rfl
  exact ⟨hb, by decide, tell_telling hb⟩

end HornBase

end Entailment
