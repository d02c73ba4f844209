import Entailment.Proofs.Chaining.Forward
import Entailment.Proofs.Chaining.Rules

/-!
# Forward chaining, iteration by iteration

Chaining forward is a loop, and `State.after` gives the state that each of its iterations starts
from. The invariant holds there. So a rule that has the symbol taken in its body has something left
to count, and counting never goes below zero. A count that has come down to nothing stays there, and
a rule adds its head only when its count comes down to nothing, which is once at most.

What is reported is the least closed set if the agenda runs out. If the goal is taken before, it is
a part of that set, and the symbols that wait behind the goal bring in the facts not taken yet.
-/

namespace Entailment

namespace Forward

variable {base : HornBase} {goal p : Symbol}

/-! ## The states of the loop -/

namespace State

variable {s t u : State} {m n i : Nat} {w w' : Pending}

/-- The state that an iteration starts from, the first one starting from the given state. There is
none once the loop has ended. -/
def after (goal : Symbol) : Nat → State → Option State
  | 0, s => some s
  | n + 1, s => (s.next? goal).bind (after goal n)

theorem after_succ_eq_some_iff :
    after goal (n + 1) s = some u ↔ ∃ t, s.next? goal = some t ∧ after goal n t = some u :=
  Option.bind_eq_some_iff

theorem after_add (m n : Nat) (s : State) :
    after goal (m + n) s = (after goal m s).bind (after goal n) := by
  induction m generalizing s with
  | zero =>
    rw [Nat.zero_add]
    rfl
  | succ m ih =>
    rw [Nat.add_right_comm, after, after, Option.bind_assoc]
    exact congrArg _ (funext ih)

/-- The loop comes to its last state. -/
theorem exists_after_run (goal : Symbol) (s : State) :
    ∃ n, after goal n s = some (s.run goal) ∧ after goal (n + 1) s = none := by
  fun_induction run goal s with
  | case1 s hn =>
    refine ⟨0, rfl, ?_⟩
    rw [after, hn]
    rfl
  | case2 s t hn ih =>
    obtain ⟨n, hr, he⟩ := ih
    refine ⟨n + 1, ?_, ?_⟩
    · rw [after, hn]
      exact hr
    · rw [after, hn]
      exact he

theorem Invariant.after (h : s.Invariant base) (hn : after goal n s = some t) :
    t.Invariant base := by
  induction n generalizing s with
  | zero =>
    cases hn
    exact h
  | succ n ih =>
    obtain ⟨u, hu, hn⟩ := after_succ_eq_some_iff.1 hn
    exact ih (h.next? hu) hn

/-! ## Rules that fire -/

/-- Whether the iteration that starts from the state adds the head of a rule to the agenda: a symbol
is taken that is new and not the goal, and it completes the body. -/
def fires (goal : Symbol) (s : State) (w : Pending) : Bool :=
  match s.agenda with
  | [] => false
  | p :: _ => p ∉ s.entailed && p ≠ goal && (w.fired? p).isSome

theorem fires_eq_true (h : s.fires goal w = true) : ∃ p agenda, s.agenda = p :: agenda ∧
    p ∉ s.entailed ∧ p ≠ goal ∧ w.awaits p = true ∧ w.missing = 1 := by
  unfold fires at h
  split at h
  · cases h
  · next p agenda ha =>
    refine ⟨p, agenda, ha, ?_⟩
    simpa [Pending.fired?, and_assoc] using h

theorem filterMap_fired? (p : Symbol) (ws : List Pending) :
    ws.filterMap (·.fired? p) =
      (ws.filter fun w => (w.fired? p).isSome).map (·.rule.head) := by
  induction ws with
  | nil => rfl
  | cons w ws ih =>
    by_cases last : w.awaits p && w.missing = 1
    · have fired : w.fired? p = some w.rule.head := if_pos last
      rw [List.filterMap_cons_some fired, List.filter_cons_of_pos (by simp [fired]), ih,
        List.map_cons]
    · have fired : w.fired? p = none := if_neg last
      rw [List.filterMap_cons_none fired, List.filter_cons_of_neg (by simp [fired]), ih]

/-- An iteration takes the first symbol from the agenda and adds the heads of the rules that fire,
in their order. -/
theorem agenda_next? (h : s.next? goal = some t) :
    t.agenda = s.agenda.tail ++ (s.pending.filter (s.fires goal)).map (·.rule.head) := by
  obtain ⟨p, agenda, ha, ⟨hp, rfl⟩ | ⟨hp, hg, rfl⟩⟩ := next?_eq_some h
  · have none : s.pending.filter (s.fires goal) = [] := by
      rw [List.filter_eq_nil_iff]
      intro w _
      simp [fires, ha, hp]
    simp [ha, none]
  · have same : s.fires goal = fun w => (w.fired? p).isSome := by
      funext w
      simp [fires, ha, hp, hg]
    rw [take, filterMap_fired?, ha, same, List.tail_cons]

/-- A count that has come down to nothing stays there. -/
theorem getElem?_next?_of_missing_eq_zero (h : s.next? goal = some t) (hw : s.pending[i]? = some w)
    (hz : w.missing = 0) : t.pending[i]? = some w := by
  obtain ⟨p, agenda, -, ⟨-, rfl⟩ | ⟨-, -, rfl⟩⟩ := next?_eq_some h
  · exact hw
  · have idle : w.take p = w := by simp [Pending.take, Pending.awaits, hz]
    rw [take, List.getElem?_map, hw, Option.map_some, idle]

theorem getElem?_after_of_missing_eq_zero (h : after goal n s = some t)
    (hw : s.pending[i]? = some w) (hz : w.missing = 0) : t.pending[i]? = some w := by
  induction n generalizing s with
  | zero =>
    cases h
    exact hw
  | succ n ih =>
    obtain ⟨u, hu, h⟩ := after_succ_eq_some_iff.1 h
    exact ih h (getElem?_next?_of_missing_eq_zero hu hw hz)

/-- The count of a rule that fires comes down to nothing. -/
theorem exists_missing_eq_zero_of_fires (h : s.next? goal = some t) (hw : s.pending[i]? = some w)
    (hf : s.fires goal w = true) : ∃ w', t.pending[i]? = some w' ∧ w'.missing = 0 := by
  obtain ⟨p, agenda, ha, hp, -, waits, last⟩ := fires_eq_true hf
  obtain ⟨q, rest, hq, hn⟩ := next?_eq_some h
  rw [ha] at hq
  cases hq
  rcases hn with ⟨hm, -⟩ | ⟨-, -, rfl⟩
  · exact absurd hm hp
  · refine ⟨w.take p, ?_, ?_⟩
    · rw [take, List.getElem?_map, hw, Option.map_some]
    · simp [Pending.take, waits, last]

theorem not_fires_of_lt (hm : after goal m s = some t) (hn : after goal n s = some u) (hmn : m < n)
    (hw : t.pending[i]? = some w) (hf : t.fires goal w = true) (hw' : u.pending[i]? = some w') :
    u.fires goal w' = false := by
  obtain ⟨k, rfl⟩ := Nat.exists_eq_add_of_lt hmn
  rw [Nat.add_assoc, after_add, hm, Option.bind_some] at hn
  obtain ⟨mid, hmid, hk⟩ := after_succ_eq_some_iff.1 hn
  obtain ⟨spent, hs, hz⟩ := exists_missing_eq_zero_of_fires hmid hw hf
  rw [getElem?_after_of_missing_eq_zero hk hs hz] at hw'
  cases hw'
  rw [← Bool.not_eq_true]
  intro again
  obtain ⟨-, -, -, -, -, -, last⟩ := fires_eq_true again
  omega

/-- No rule fires in two iterations. -/
theorem eq_of_fires (hm : after goal m s = some t) (hn : after goal n s = some u)
    (hw : t.pending[i]? = some w) (hf : t.fires goal w = true) (hw' : u.pending[i]? = some w')
    (hf' : u.fires goal w' = true) : m = n := by
  rcases Nat.lt_trichotomy m n with hlt | rfl | hgt
  · rw [not_fires_of_lt hm hn hlt hw hf hw'] at hf'
    cases hf'
  · rfl
  · rw [not_fires_of_lt hn hm hgt hw' hf' hw] at hf
    cases hf

end State

end Forward

/-! ## What is reported -/

section
variable {kb : KnowledgeBase} {base : HornBase} {goal p q : Symbol} {waiting : List Symbol}
  {withAgenda : Bool}

open Forward

/-- What is reported if the goal is found: what was taken, and what waits if that is asked for. -/
theorem mem_forwardChain_of_agenda (ha : ((State.start base).run goal).agenda = q :: waiting) :
    p ∈ (forwardChain base goal withAgenda).entailed ↔
      p = q ∨ p ∈ ((State.start base).run goal).entailed ∨ withAgenda = true ∧ p ∈ waiting := by
  simp only [forwardChain, ha]
  cases withAgenda with
  | false => simp
  | true =>
    simp only [if_true, SortedSet.mem_insertAll, SortedSet.mem_insert, true_and]
    rw [or_comm, or_assoc]

theorem follows_of_mem_forwardChain (h : p ∈ (forwardChain base goal withAgenda).entailed) :
    base.Follows p := by
  have inv := (State.invariant_start base).run goal
  rcases agenda_run_cases base goal with ⟨-, he⟩ | ⟨waiting, ha, -⟩
  · rw [he withAgenda] at h
    exact inv.sound p (.inl h)
  · rcases (mem_forwardChain_of_agenda ha).1 h with rfl | h | ⟨-, h⟩
    · exact inv.sound p (.inr (ha ▸ List.mem_cons_self))
    · exact inv.sound p (.inl h)
    · exact inv.sound p (.inr (ha ▸ List.mem_cons_of_mem _ h))

/-- A chain that ends without the goal has taken all that follows. -/
theorem mem_forwardChain_iff_follows (hb : ∀ r ∈ base.rules, r.body ≠ [])
    (h : (forwardChain base goal withAgenda).found = false) :
    p ∈ (forwardChain base goal withAgenda).entailed ↔ base.Follows p := by
  refine ⟨follows_of_mem_forwardChain, fun hp => ?_⟩
  rcases agenda_run_cases base goal with ⟨ha, he⟩ | ⟨waiting, -, he⟩
  · rw [he withAgenda]
    exact (((State.invariant_start base).run goal).closed hb ha).of_follows hp
  · rw [(he withAgenda).1] at h
    cases h

/-- With the symbols that wait, a chain that finds the goal reports every fact, and what it reports
without them. -/
theorem mem_forwardChain_withAgenda (h : (forwardChain base goal true).found = true) :
    (∀ p ∈ base.facts, p ∈ (forwardChain base goal true).entailed) ∧
      ∀ p ∈ (forwardChain base goal false).entailed,
        p ∈ (forwardChain base goal true).entailed := by
  rcases agenda_run_cases base goal with ⟨-, he⟩ | ⟨waiting, ha, -⟩
  · rw [he true] at h
    cases h
  · constructor
    · intro p hp
      rw [mem_forwardChain_of_agenda ha]
      rcases ((State.invariant_start base).run goal).facts p hp with ht | hw
      · exact .inr (.inl ht)
      · rw [ha] at hw
        exact (List.mem_cons.1 hw).imp_right fun hw => .inr ⟨rfl, hw⟩
    · intro p hp
      rw [mem_forwardChain_of_agenda ha] at hp ⊢
      exact hp.imp_right fun hp => .inl (hp.resolve_right fun hw => Bool.false_ne_true hw.1)

/-- At the start of every iteration the count of each rule is the number of symbols of its body that
have not been taken, so there is something to count whenever a symbol of the body is taken. An
iteration adds the heads of the rules that fire, and no rule fires twice. The iterations end. What
is reported then is the least closed set if the goal was not found. If it was, it is a part of that
set that contains the goal, and with the symbols that wait it contains the facts and all that is
reported without them. -/
theorem forwardChain_counts (hb : HornBase.ofKnowledgeBase kb = .ok base) (goal : Symbol) :
    (∀ n s, State.after goal n (.start base) = some s →
      s.pending.map Pending.rule = base.rules ∧
      (∀ w ∈ s.pending, w.missing = missingFrom w.rule.body s.entailed) ∧
      (∀ p agenda, s.agenda = p :: agenda → p ∉ s.entailed →
        ∀ w ∈ s.pending, p ∈ w.rule.body → 0 < w.missing) ∧
      ∀ t, s.next? goal = some t →
        t.agenda = s.agenda.tail ++ (s.pending.filter (s.fires goal)).map (·.rule.head)) ∧
    (∀ (i m n : Nat) (s t : State) (w w' : Pending), State.after goal m (.start base) = some s →
      State.after goal n (.start base) = some t → s.pending[i]? = some w →
      s.fires goal w = true → t.pending[i]? = some w' → t.fires goal w' = true → m = n) ∧
    (∃ n, State.after goal n (.start base) = some ((State.start base).run goal) ∧
      State.after goal (n + 1) (.start base) = none) ∧
    ∀ withAgenda,
      ((forwardChain base goal withAgenda).found = false →
        ∀ p, p ∈ (forwardChain base goal withAgenda).entailed ↔ base.Follows p) ∧
      ((forwardChain base goal withAgenda).found = true →
        goal ∈ (forwardChain base goal withAgenda).entailed ∧
        (∀ p ∈ (forwardChain base goal withAgenda).entailed, base.Follows p) ∧
        (withAgenda = true →
          (∀ p ∈ base.facts, p ∈ (forwardChain base goal true).entailed) ∧
          ∀ p ∈ (forwardChain base goal false).entailed,
            p ∈ (forwardChain base goal true).entailed)) := by
  refine ⟨?counts, ?once, State.exists_after_run goal _, ?reported⟩
  case counts =>
    intro n s hs
    have inv := (State.invariant_start base).after hs
    refine ⟨inv.rules, inv.counts, ?_, fun t ht => State.agenda_next? ht⟩
    intro p agenda _ hp w hw hb
    rw [inv.counts w hw]
    exact missingFrom_pos hb hp
  case once =>
    intro i m n s t w w' hs ht hw hf hw' hf'
    exact State.eq_of_fires hs ht hw hf hw' hf'
  case reported =>
    intro withAgenda
    constructor
    · intro h p
      exact mem_forwardChain_iff_follows (HornBase.stated_of_ofKnowledgeBase hb).body_ne_nil h
    · intro h
      refine ⟨mem_forwardChain_iff.2 h, fun p => follows_of_mem_forwardChain, ?_⟩
      rintro rfl
      exact mem_forwardChain_withAgenda h

/-- A fact and a rule come up twice, a body has a symbol twice, and the rules lead round in a
circle. -/
theorem forwardChain_counts_repeated :
    let a : Symbol := ⟨"a", by decide⟩
    let b : Symbol := ⟨"b", by decide⟩
    let c : Symbol := ⟨"c", by decide⟩
    let both (p q : Symbol) : Sentence :=
      .binary .conjunction (.literal (.positive p)) (.literal (.positive q))
    let implies (body : Sentence) (p : Symbol) : Sentence :=
      .binary .implication body (.literal (.positive p))
    let kb : KnowledgeBase :=
      ⟨[.literal (.positive a), .literal (.positive a), implies (both a a) b, implies (both a a) b,
        implies (both b a) a], ∅⟩
    let base : HornBase := ⟨[a, a], [⟨[a, a], b⟩, ⟨[a, a], b⟩, ⟨[b, a], a⟩]⟩
    HornBase.ofKnowledgeBase kb = .ok base ∧ (forwardChain base c true).found = false ∧
      ∀ p, p ∈ (forwardChain base c true).entailed ↔ base.Follows p := by
  intro a b c both implies kb base
  have hb : HornBase.ofKnowledgeBase kb = .ok base := rfl
  have closed : base.Closed (· ≠ c) := ⟨by decide, fun r hr _ => by revert r; decide⟩
  have missed : (forwardChain base c true).found = false := by
    rw [← Bool.not_eq_true,
      found_forwardChain_iff (HornBase.stated_of_ofKnowledgeBase hb).body_ne_nil]
    exact fun follows => closed.of_follows follows rfl
  obtain ⟨-, -, -, reported⟩ := forwardChain_counts hb c
  exact ⟨hb, missed, (reported true).1 missed⟩

end

end Entailment
