import Entailment.Horn.Backward
import Entailment.Proofs.Chaining.Closure

/-!
# Chaining backward

What is known grows by facts, and by heads of rules whose bodies are known. So all of it follows
from the base, also what was shown on the way to a failure.

A goal that is being proven fails when it comes up again, and yet nothing is missed: a goal that
follows at all has a derivation that does not lead through itself (`FollowsOff.exists_rule`). What
an attempt promises is therefore stated for derivations that keep off the path (`Attempt`).
-/

namespace Entailment

namespace Backward

variable {base : HornBase} {path : List Symbol} {known mid later : SortedSet Symbol}
  {p goal : Symbol}

/-! ## What is known -/

/-- The second set comes from the first by adding facts, and heads of rules whose bodies it has. -/
inductive Grows (base : HornBase) (known : SortedSet Symbol) : SortedSet Symbol → Prop
  | refl : Grows base known known
  | fact {later : SortedSet Symbol} {p : Symbol} (grown : Grows base known later)
    (h : p ∈ base.facts) : Grows base known (later.insert p)
  | rule {later : SortedSet Symbol} {r : HornRule} (grown : Grows base known later)
    (h : r ∈ base.rules) (body : ∀ p ∈ r.body, p ∈ later) :
    Grows base known (later.insert r.head)

namespace Grows

theorem trans (h : Grows base known mid) (h' : Grows base mid later) : Grows base known later := by
  induction h' with
  | refl => exact h
  | fact _ hp ih => exact .fact ih hp
  | rule _ hr body ih => exact .rule ih hr body

theorem mem (h : Grows base known later) (hp : p ∈ known) : p ∈ later := by
  induction h with
  | refl => exact hp
  | fact _ _ ih => exact SortedSet.mem_insert.2 (.inr ih)
  | rule _ _ _ ih => exact SortedSet.mem_insert.2 (.inr ih)

theorem follows (h : Grows base known later) (hk : ∀ p ∈ known, base.Follows p) :
    ∀ p ∈ later, base.Follows p := by
  induction h with
  | refl => exact hk
  | fact _ hq ih =>
    intro p hp
    rcases SortedSet.mem_insert.1 hp with rfl | hp
    · exact .fact hq
    · exact ih p hp
  | rule _ hr body ih =>
    intro p hp
    rcases SortedSet.mem_insert.1 hp with rfl | hp
    · exact .rule hr fun q hq => ih q (body q hq)
    · exact ih p hp

end Grows

/-! ## Derivations that keep off a path -/

/-- The symbols with a derivation in which no symbol of the path is the head of a rule. -/
inductive FollowsOff (base : HornBase) (path : List Symbol) : Symbol → Prop
  | fact {p : Symbol} (h : p ∈ base.facts) : FollowsOff base path p
  | rule {r : HornRule} (h : r ∈ base.rules) (off : r.head ∉ path)
    (body : ∀ p ∈ r.body, FollowsOff base path p) : FollowsOff base path r.head

namespace FollowsOff

theorem of_follows (h : base.Follows p) : FollowsOff base [] p := by
  induction h with
  | fact h => exact .fact h
  | rule h _ ih => exact .rule h List.not_mem_nil ih

/-- A derivation keeps off one more symbol, or that symbol is derivable in it by a rule whose body
has derivations that keep off the symbol. -/
theorem cons_or_exists_rule (h : FollowsOff base path p) (goal : Symbol) :
    FollowsOff base (goal :: path) p ∨
      ∃ r ∈ base.rules, r.head = goal ∧ ∀ q ∈ r.body, FollowsOff base (goal :: path) q := by
  induction h with
  | fact h => exact .inl (.fact h)
  | @rule r hr off _ ih =>
    by_cases below : ∀ q ∈ r.body, FollowsOff base (goal :: path) q
    · by_cases hg : r.head = goal
      · exact .inr ⟨r, hr, hg, below⟩
      · have off' : r.head ∉ goal :: path := by
          intro hm
          rcases List.mem_cons.1 hm with hm | hm
          · exact hg hm
          · exact off hm
        exact .inl (.rule hr off' below)
    · -- The symbol was needed further up, where it was derived already.
      simp only [Classical.not_forall] at below
      obtain ⟨q, hq, hn⟩ := below
      exact .inr ((ih q hq).resolve_left hn)

/-- A symbol that is no fact has a derivation that does not lead through the symbol itself. -/
theorem exists_rule (h : FollowsOff base path goal) (hf : goal ∉ base.facts) :
    ∃ r ∈ base.rules, r.head = goal ∧ ∀ q ∈ r.body, FollowsOff base (goal :: path) q := by
  refine (h.cons_or_exists_rule goal).resolve_left fun hc => ?_
  cases hc with
  | fact hg => exact hf hg
  | rule _ off _ => exact off List.mem_cons_self

theorem not_mem_path (h : FollowsOff base path goal) (hf : goal ∉ base.facts) : goal ∉ path := by
  cases h with
  | fact hg => exact absurd hg hf
  | rule _ off _ => exact off

end FollowsOff

/-! ## Attempts -/

/-- What an attempt to prove a claim does, where the claim is about sets of symbols: it knows what
it knew and more, success shows the claim, and a claim that follows off the path has success. -/
structure Attempt (base : HornBase) (path : List Symbol) (claim : (Symbol → Prop) → Prop)
    (known : SortedSet Symbol) (result : Bool × SortedSet Symbol) : Prop where
  grows : Grows base known result.2
  sound : result.1 = true → claim (· ∈ result.2)
  complete : claim (FollowsOff base path) → result.1 = true

theorem Attempt.succeeded {claim : (Symbol → Prop) → Prop} (grown : Grows base known later)
    (shown : claim (· ∈ later)) : Attempt base path claim known (true, later) :=
  ⟨grown, fun _ => shown, fun _ => rfl⟩

theorem Attempt.failed {claim : (Symbol → Prop) → Prop} (grown : Grows base known later)
    (none : ¬ claim (FollowsOff base path)) : Attempt base path claim known (false, later) :=
  ⟨grown, fun h => absurd h Bool.false_ne_true, fun h => absurd h none⟩

/-- Attempts keep what they promise: those at a goal, at the rules for a goal, and at all of some
goals. The induction is on the calls, and the path of the inner calls is longer by the goal. -/
theorem attempt_prove_and (base : HornBase) :
    (∀ path goal known,
      Attempt base path (fun S => S goal) known (prove base path goal known)) ∧
    (∀ path rules known,
      Attempt base path (fun S => ∃ r ∈ rules, ∀ p ∈ r.body, S p) known
        (proveByRules base path rules known)) ∧
    ∀ path goals known,
      Attempt base path (fun S => ∀ p ∈ goals, S p) known (proveAll base path goals known) := by
  refine prove.mutual_induct base _ _ _ ?known ?fact ?cycle ?proven ?unproven ?headless
    ?noRules ?firstRule ?nextRules ?noGoals ?nextGoals ?firstGoal
  case known =>
    intro path goal known hk
    rw [prove, if_pos hk]
    exact .succeeded .refl hk
  case fact =>
    intro path goal known hk hf
    rw [prove, if_neg hk, if_pos hf]
    exact .succeeded (.fact .refl hf) (SortedSet.mem_insert.2 (.inl rfl))
  case cycle =>
    intro path goal known hk hf hp
    rw [prove, if_neg hk, if_neg hf, dif_pos hp]
    exact .failed .refl fun h => h.not_mem_path hf hp
  case proven =>
    intro path goal known hk hf hp hc later he ih
    rw [prove, if_neg hk, if_neg hf, dif_neg hp, dif_pos hc, he]
    rw [he] at ih
    obtain ⟨r, hr, body⟩ := ih.sound rfl
    obtain ⟨hr, hg⟩ := List.mem_filter.1 hr
    have hg : r.head = goal := of_decide_eq_true hg
    have grown : Grows base known (later.insert r.head) := .rule ih.grows hr body
    exact .succeeded (hg ▸ grown) (SortedSet.mem_insert.2 (.inl rfl))
  case unproven =>
    intro path goal known hk hf hp hc later he ih
    rw [prove, if_neg hk, if_neg hf, dif_neg hp, dif_pos hc, he]
    rw [he] at ih
    refine .failed ih.grows fun h => ?_
    obtain ⟨r, hr, hg, body⟩ := h.exists_rule hf
    have some := ih.complete ⟨r, List.mem_filter.2 ⟨hr, decide_eq_true hg⟩, body⟩
    exact Bool.false_ne_true some
  case headless =>
    intro path goal known hk hf hp hc
    rw [prove, if_neg hk, if_neg hf, dif_neg hp, dif_neg hc]
    refine .failed .refl fun h => ?_
    obtain ⟨r, hr, hg, -⟩ := h.exists_rule hf
    exact hc ⟨r, hr, hg⟩
  case noRules =>
    intro path known
    rw [proveByRules]
    refine .failed .refl fun h => ?_
    obtain ⟨r, hr, -⟩ := h
    exact List.not_mem_nil hr
  case firstRule =>
    intro path known r rules later he ih
    rw [proveByRules, he]
    rw [he] at ih
    exact .succeeded ih.grows ⟨r, List.mem_cons_self, ih.sound rfl⟩
  case nextRules =>
    intro path known r rules mid he ih ihs
    rw [proveByRules, he]
    rw [he] at ih
    refine ⟨ih.grows.trans ihs.grows, fun h => ?_, fun h => ?_⟩
    · obtain ⟨r', hr, body⟩ := ihs.sound h
      exact ⟨r', List.mem_cons_of_mem _ hr, body⟩
    · obtain ⟨r', hr, body⟩ := h
      rcases List.mem_cons.1 hr with rfl | hr
      · exact absurd (ih.complete body) Bool.false_ne_true
      · exact ihs.complete ⟨r', hr, body⟩
  case noGoals =>
    intro path known
    rw [proveAll]
    exact .succeeded .refl fun p hp => absurd hp List.not_mem_nil
  case nextGoals =>
    intro path known goal goals mid he ih ihs
    rw [proveAll, he]
    rw [he] at ih
    refine ⟨ih.grows.trans ihs.grows, fun h => ?_, fun h => ?_⟩
    · exact List.forall_mem_cons.2 ⟨ihs.grows.mem (ih.sound rfl), ihs.sound h⟩
    · exact ihs.complete (List.forall_mem_cons.1 h).2
  case firstGoal =>
    intro path known goal goals later he ih
    rw [proveAll, he]
    rw [he] at ih
    refine .failed ih.grows fun h => ?_
    exact Bool.false_ne_true (ih.complete (List.forall_mem_cons.1 h).1)

theorem attempt_prove (base : HornBase) (path : List Symbol) (goal : Symbol)
    (known : SortedSet Symbol) :
    Attempt base path (fun S => S goal) known (prove base path goal known) :=
  (attempt_prove_and base).1 path goal known

end Backward

/-! ## The answer -/

section
variable {base : HornBase} {goal : Symbol}

theorem follows_of_mem_backwardChain {p : Symbol} (h : p ∈ (backwardChain base goal).entailed) :
    base.Follows p := by
  have grown := (Backward.attempt_prove base [] goal ∅).grows
  exact grown.follows (fun p hp => absurd hp (SortedSet.not_mem_empty p)) p h

theorem found_backwardChain_iff : (backwardChain base goal).found = true ↔ base.Follows goal := by
  have attempt := Backward.attempt_prove base [] goal ∅
  constructor
  · intro h
    exact follows_of_mem_backwardChain (attempt.sound h)
  · intro h
    exact attempt.complete (.of_follows h)

theorem mem_backwardChain_iff :
    goal ∈ (backwardChain base goal).entailed ↔ (backwardChain base goal).found = true := by
  constructor
  · intro h
    exact found_backwardChain_iff.2 (follows_of_mem_backwardChain h)
  · intro h
    exact (Backward.attempt_prove base [] goal ∅).sound h

end

end Entailment
