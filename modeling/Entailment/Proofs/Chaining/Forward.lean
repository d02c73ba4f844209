import Entailment.Horn.Forward
import Entailment.Proofs.Basic
import Entailment.Proofs.Chaining.Closure

/-!
# Chaining forward

At every step the count of a rule is the number of symbols of its body that have not been taken
(`State.Invariant`). So a rule adds its head to the agenda just when the last of them is taken, and
what was taken is the least closed set once the agenda is empty. A rule without a body never adds
its head, and the bases that chaining works on have none.
-/

namespace Entailment

namespace Forward

variable {base : HornBase} {goal p : Symbol} {entailed : SortedSet Symbol}

/-! ## Counts -/

/-- The number of symbols of a body, each counted once, that are not in the set. -/
def missingFrom (body : List Symbol) (entailed : SortedSet Symbol) : Nat :=
  (body.eraseDups.filter (· ∉ entailed)).length

section
variable {body : List Symbol}

theorem missingFrom_empty (body : List Symbol) : missingFrom body ∅ = body.eraseDups.length := by
  have all : body.eraseDups.filter (· ∉ (∅ : SortedSet Symbol)) = body.eraseDups := by
    rw [List.filter_eq_self]
    intro p _
    simp
  rw [missingFrom, all]

theorem missingFrom_eq_zero_iff : missingFrom body entailed = 0 ↔ ∀ p ∈ body, p ∈ entailed := by
  simp [missingFrom]

theorem missingFrom_pos (hb : p ∈ body) (hp : p ∉ entailed) : 0 < missingFrom body entailed := by
  rw [Nat.pos_iff_ne_zero]
  intro h
  exact hp (missingFrom_eq_zero_iff.1 h p hb)

/-- Adding a new symbol counts for the bodies that it occurs in, and once. -/
theorem missingFrom_insert (hp : p ∉ entailed) :
    missingFrom body (entailed.insert p) =
      if p ∈ body then missingFrom body entailed - 1 else missingFrom body entailed := by
  have split : body.eraseDups.filter (· ∉ entailed.insert p) =
      (body.eraseDups.filter (· ∉ entailed)).erase p := by
    have nodup : (body.eraseDups.filter (· ∉ entailed)).Nodup := (nodup_eraseDups body).filter _
    rw [nodup.erase_eq_filter, List.filter_filter]
    refine List.filter_congr fun q _ => ?_
    by_cases hq : q = p <;> simp [hq]
  have hm : p ∈ body.eraseDups.filter (· ∉ entailed) ↔ p ∈ body := by simp [hp]
  rw [missingFrom, split]
  split
  · next hb => rw [List.length_erase_of_mem (hm.2 hb), missingFrom]
  · next hb => rw [List.erase_of_not_mem (mt hm.1 hb), missingFrom]

end

namespace Pending

variable {w : Pending}

/-- The count is the number of symbols of the body that have not been taken. -/
def Counts (entailed : SortedSet Symbol) (w : Pending) : Prop :=
  w.missing = missingFrom w.rule.body entailed

theorem counts_ofRule (r : HornRule) : Counts ∅ (ofRule r) :=
  (missingFrom_empty r.body).symm

@[simp] theorem rule_take (p : Symbol) (w : Pending) : (w.take p).rule = w.rule := by
  unfold take
  split <;> rfl

theorem Counts.awaits_iff (h : w.Counts entailed) (hp : p ∉ entailed) :
    w.awaits p = true ↔ p ∈ w.rule.body := by
  rw [awaits, Bool.and_eq_true, decide_eq_true_iff, decide_eq_true_iff, h]
  exact and_iff_left_of_imp fun hb => missingFrom_pos hb hp

theorem Counts.take (h : w.Counts entailed) (hp : p ∉ entailed) :
    (w.take p).Counts (entailed.insert p) := by
  rw [Counts, rule_take, missingFrom_insert hp, ← h]
  unfold Pending.take
  by_cases hb : p ∈ w.rule.body
  · rw [if_pos ((h.awaits_iff hp).2 hb), if_pos hb]
  · rw [if_neg (mt (h.awaits_iff hp).1 hb), if_neg hb]

/-- A rule adds its head when the symbol taken is the last of its body. -/
theorem Counts.fired?_eq_some_iff (h : w.Counts entailed) (hp : p ∉ entailed) {q : Symbol} :
    w.fired? p = some q ↔
      (p ∈ w.rule.body ∧ ∀ b ∈ w.rule.body, b ∈ entailed.insert p) ∧ w.rule.head = q := by
  have last : (w.awaits p && w.missing = 1) = true ↔
      p ∈ w.rule.body ∧ ∀ b ∈ w.rule.body, b ∈ entailed.insert p := by
    rw [Bool.and_eq_true, h.awaits_iff hp, decide_eq_true_iff]
    refine and_congr_right fun hb => ?_
    have := missingFrom_pos hb hp
    rw [← missingFrom_eq_zero_iff, missingFrom_insert hp, if_pos hb, h]
    omega
  unfold fired?
  split
  · next hl => rw [Option.some.injEq, and_iff_right (last.1 hl)]
  · next hl =>
    constructor
    · intro h
      cases h
    · intro h
      exact absurd (last.2 h.1) hl

end Pending

/-! ## Steps -/

namespace State

variable {s t : State} {agenda : List Symbol}

theorem next?_eq_some (h : s.next? goal = some t) : ∃ p agenda, s.agenda = p :: agenda ∧
    ((p ∈ s.entailed ∧ t = { s with agenda }) ∨
      (p ∉ s.entailed ∧ p ≠ goal ∧ t = s.take p agenda)) := by
  unfold next? at h
  split at h
  · cases h
  · next p agenda ha =>
    refine ⟨p, agenda, ha, ?_⟩
    split at h
    · next hp =>
      cases h
      exact .inl ⟨hp, rfl⟩
    · next hp =>
      split at h
      · cases h
      · next hg =>
        cases h
        exact .inr ⟨hp, hg, rfl⟩

theorem next?_eq_none (h : s.next? goal = none) :
    s.agenda = [] ∨ ∃ agenda, s.agenda = goal :: agenda := by
  unfold next? at h
  split at h
  · next ha => exact .inl ha
  · next p agenda ha =>
    split at h
    · cases h
    · split at h
      · next hg => exact .inr ⟨agenda, by rw [ha, hg]⟩
      · cases h

/-- What every step keeps holds of the last state. -/
theorem run_of_step {P : State → Prop} (step : ∀ s t, s.next? goal = some t → P s → P t)
    (h : P s) : P (s.run goal) := by
  fun_induction run goal s with
  | case1 => exact h
  | case2 s t hn ih => exact ih (step s t hn h)

theorem next?_run (goal : Symbol) (s : State) : (s.run goal).next? goal = none := by
  fun_induction run goal s with
  | case1 s hn => exact hn
  | case2 s t hn ih => exact ih

/-- A symbol known to hold: it was taken, or it waits. -/
def Shown (s : State) (p : Symbol) : Prop :=
  p ∈ s.entailed ∨ p ∈ s.agenda

/-- What holds at every step. -/
structure Invariant (base : HornBase) (s : State) : Prop where
  rules : s.pending.map Pending.rule = base.rules
  counts : ∀ w ∈ s.pending, w.Counts s.entailed
  sound : ∀ p, s.Shown p → base.Follows p
  facts : ∀ p ∈ base.facts, s.Shown p
  heads : ∀ r ∈ base.rules, r.body ≠ [] → (∀ p ∈ r.body, p ∈ s.entailed) → s.Shown r.head

theorem invariant_start (base : HornBase) : (start base).Invariant base where
  rules := by
    rw [start, List.map_map]
    exact List.map_id _
  counts w hw := by
    obtain ⟨r, -, rfl⟩ := List.mem_map.1 hw
    exact Pending.counts_ofRule r
  sound p hp := .fact (hp.resolve_left (SortedSet.not_mem_empty p))
  facts p hp := .inr hp
  heads r _ hne body := by
    obtain ⟨p, hp⟩ := List.exists_mem_of_ne_nil _ hne
    exact absurd (body p hp) (SortedSet.not_mem_empty p)

/-- Passing over a symbol that was taken before loses nothing. -/
theorem Invariant.skip (h : s.Invariant base) (ha : s.agenda = p :: agenda)
    (hp : p ∈ s.entailed) : Invariant base { s with agenda } := by
  have same : ∀ q, Shown { s with agenda } q ↔ s.Shown q := by
    intro q
    simp only [Shown, ha, List.mem_cons]
    constructor
    · exact Or.imp_right .inr
    · rintro (hq | rfl | hq)
      · exact .inl hq
      · exact .inl hp
      · exact .inr hq
  exact ⟨h.rules, h.counts, fun q hq => h.sound q ((same q).1 hq),
    fun q hq => (same q).2 (h.facts q hq), fun r hr hne body => (same _).2 (h.heads r hr hne body)⟩

theorem mem_agenda_take (h : s.Invariant base) (hp : p ∉ s.entailed) {q : Symbol} :
    q ∈ (s.take p agenda).agenda ↔ q ∈ agenda ∨ ∃ r ∈ base.rules,
      (p ∈ r.body ∧ ∀ b ∈ r.body, b ∈ s.entailed.insert p) ∧ r.head = q := by
  rw [take, List.mem_append, List.mem_filterMap, ← h.rules]
  refine or_congr_right ⟨fun hq => ?_, fun hq => ?_⟩
  · obtain ⟨w, hw, hf⟩ := hq
    exact ⟨w.rule, List.mem_map_of_mem hw, ((h.counts w hw).fired?_eq_some_iff hp).1 hf⟩
  · obtain ⟨r, hr, hq⟩ := hq
    obtain ⟨w, hw, rfl⟩ := List.mem_map.1 hr
    exact ⟨w, hw, ((h.counts w hw).fired?_eq_some_iff hp).2 hq⟩

/-- Taking a new symbol. The rules completed by it add their heads, and no others do. -/
theorem Invariant.take (h : s.Invariant base) (ha : s.agenda = p :: agenda)
    (hp : p ∉ s.entailed) : (s.take p agenda).Invariant base := by
  have kept : ∀ q, s.Shown q → (s.take p agenda).Shown q := by
    intro q hq
    rw [Shown, ha, List.mem_cons] at hq
    rcases hq with hq | rfl | hq
    · exact .inl (SortedSet.mem_insert.2 (.inr hq))
    · exact .inl (SortedSet.mem_insert.2 (.inl rfl))
    · exact .inr (List.mem_append_left _ hq)
  have taken : ∀ q ∈ s.entailed.insert p, base.Follows q := by
    intro q hq
    rcases SortedSet.mem_insert.1 hq with rfl | hq
    · exact h.sound q (.inr (ha ▸ List.mem_cons_self))
    · exact h.sound q (.inl hq)
  constructor
  case rules =>
    rw [← h.rules]
    simp [State.take]
  case counts =>
    intro w' hw'
    obtain ⟨w, hw, rfl⟩ := List.mem_map.1 hw'
    exact (h.counts w hw).take hp
  case sound =>
    intro q hq
    rcases hq with hq | hq
    · exact taken q hq
    · rcases (mem_agenda_take h hp).1 hq with hq | ⟨r, hr, ⟨-, body⟩, rfl⟩
      · exact h.sound q (.inr (ha ▸ List.mem_cons_of_mem _ hq))
      · exact .rule hr fun b hb => taken b (body b hb)
  case facts =>
    intro q hq
    exact kept q (h.facts q hq)
  case heads =>
    intro r hr hne body
    by_cases hb : p ∈ r.body
    · exact .inr ((mem_agenda_take h hp).2 (.inr ⟨r, hr, ⟨hb, body⟩, rfl⟩))
    · -- The symbol is not of the body, all of which was taken before.
      refine kept _ (h.heads r hr hne fun q hq => ?_)
      refine (SortedSet.mem_insert.1 (body q hq)).resolve_left ?_
      rintro rfl
      exact hb hq

theorem Invariant.next? (h : s.Invariant base) (hn : s.next? goal = some t) :
    t.Invariant base := by
  obtain ⟨p, agenda, ha, ⟨hp, rfl⟩ | ⟨hp, -, rfl⟩⟩ := next?_eq_some hn
  · exact h.skip ha hp
  · exact h.take ha hp

theorem Invariant.run (h : s.Invariant base) (goal : Symbol) : (s.run goal).Invariant base :=
  run_of_step (fun _ _ hn hs => hs.next? hn) h

/-- The goal is not taken by any step. -/
theorem not_mem_entailed_run (h : goal ∉ s.entailed) : goal ∉ (s.run goal).entailed := by
  refine run_of_step (P := fun s => goal ∉ s.entailed) (fun s t hn hs => ?_) h
  obtain ⟨p, agenda, -, ⟨-, rfl⟩ | ⟨-, hg, rfl⟩⟩ := next?_eq_some hn
  · exact hs
  · intro hm
    rcases SortedSet.mem_insert.1 hm with rfl | hm
    · exact hg rfl
    · exact hs hm

/-- Once the agenda is empty, what was taken is closed. -/
theorem Invariant.closed (h : s.Invariant base) (hb : ∀ r ∈ base.rules, r.body ≠ [])
    (ha : s.agenda = []) : base.Closed (· ∈ s.entailed) := by
  have taken : ∀ p, s.Shown p → p ∈ s.entailed := by
    intro p hp
    refine hp.resolve_right ?_
    rw [ha]
    exact List.not_mem_nil
  exact ⟨fun p hp => taken p (h.facts p hp),
    fun r hr body => taken _ (h.heads r hr (hb r hr) body)⟩

end State

end Forward

/-! ## The answer -/

section
variable {base : HornBase} {goal : Symbol}

open Forward

/-- Where chaining ends: the agenda is empty, or the goal is next. -/
theorem agenda_run_cases (base : HornBase) (goal : Symbol) :
    (((State.start base).run goal).agenda = [] ∧ ∀ withAgenda, forwardChain base goal withAgenda =
      ⟨false, ((State.start base).run goal).entailed⟩) ∨
    ∃ waiting, ((State.start base).run goal).agenda = goal :: waiting ∧
      ∀ withAgenda, (forwardChain base goal withAgenda).found = true ∧
        goal ∈ (forwardChain base goal withAgenda).entailed := by
  rcases State.next?_eq_none (State.next?_run goal (.start base)) with ha | ⟨waiting, ha⟩
  · refine .inl ⟨ha, fun withAgenda => ?_⟩
    simp only [forwardChain, ha]
  · refine .inr ⟨waiting, ha, fun withAgenda => ?_⟩
    simp only [forwardChain, ha, true_and]
    cases withAgenda <;> simp

theorem found_forwardChain_iff (hb : ∀ r ∈ base.rules, r.body ≠ []) {withAgenda : Bool} :
    (forwardChain base goal withAgenda).found = true ↔ base.Follows goal := by
  have inv := (State.invariant_start base).run goal
  rcases agenda_run_cases base goal with ⟨ha, he⟩ | ⟨waiting, ha, he⟩
  · rw [he withAgenda]
    refine ⟨fun h => absurd h Bool.false_ne_true, fun h => ?_⟩
    have taken := (inv.closed hb ha).of_follows h
    exact absurd taken (State.not_mem_entailed_run (SortedSet.not_mem_empty goal))
  · refine ⟨fun _ => inv.sound goal (.inr ?_), fun _ => (he withAgenda).1⟩
    rw [ha]
    exact List.mem_cons_self

theorem mem_forwardChain_iff {withAgenda : Bool} :
    goal ∈ (forwardChain base goal withAgenda).entailed ↔
      (forwardChain base goal withAgenda).found = true := by
  rcases agenda_run_cases base goal with ⟨-, he⟩ | ⟨waiting, -, he⟩
  · rw [he withAgenda]
    refine ⟨fun h => ?_, fun h => absurd h Bool.false_ne_true⟩
    exact absurd h (State.not_mem_entailed_run (SortedSet.not_mem_empty goal))
  · exact ⟨fun _ => (he withAgenda).1, fun _ => (he withAgenda).2⟩

end

end Entailment
