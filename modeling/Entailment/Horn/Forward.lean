import Entailment.Horn.Basic

/-!
# Forward chaining

From the facts towards the query: symbols known to hold wait on an agenda, first in, first out, and
every rule counts the symbols of its body that have not been taken from the agenda yet. Taking a
symbol that is new lowers the counts of the rules it occurs in, and a rule whose count comes down to
nothing puts its head on the agenda. The query is found when it is taken.

Every step lowers the counts or shortens the agenda (`effort_take_lt`), so chaining ends.
-/

namespace Entailment.Forward

/-- A rule with the number of symbols of its body that have not been taken yet. -/
structure Pending where
  rule : HornRule
  missing : Nat
deriving DecidableEq

namespace Pending

/-- A rule none of whose symbols has been taken. -/
def ofRule (r : HornRule) : Pending :=
  ⟨r, r.body.eraseDups.length⟩

/-- Whether taking a symbol counts for the rule. -/
def awaits (w : Pending) (p : Symbol) : Bool :=
  p ∈ w.rule.body && 0 < w.missing

/-- The rule after a symbol was taken. -/
def take (p : Symbol) (w : Pending) : Pending :=
  if w.awaits p then { w with missing := w.missing - 1 } else w

/-- The head of the rule, if taking a symbol completes the body. -/
def fired? (p : Symbol) (w : Pending) : Option Symbol :=
  if w.awaits p && w.missing = 1 then some w.rule.head else none

theorem fired_add_missing_le (p : Symbol) (w : Pending) :
    (w.fired? p).toList.length + 2 * (w.take p).missing ≤ 2 * w.missing := by
  by_cases waits : w.awaits p
  · have positive : 0 < w.missing := by
      simp only [awaits, Bool.and_eq_true, decide_eq_true_eq] at waits
      exact waits.2
    have taken : (w.take p).missing = w.missing - 1 := by simp [take, waits]
    by_cases last : w.missing = 1
    · have fired : w.fired? p = some w.rule.head := by simp [fired?, waits, last]
      rw [fired, taken, Option.toList_some, List.length_singleton]
      omega
    · have fired : w.fired? p = none := by simp [fired?, waits, last]
      rw [fired, taken, Option.toList_none, List.length_nil]
      omega
  · simp [fired?, take, waits]

end Pending

/-- How far chaining has come. -/
structure State where
  /-- The symbols known to hold that have not been taken yet. -/
  agenda : List Symbol
  /-- The symbols taken. -/
  entailed : SortedSet Symbol
  /-- The rules, in their order. -/
  pending : List Pending
deriving DecidableEq

namespace State

/-- The facts are known to hold, and nothing has been taken. -/
def start (base : HornBase) : State where
  agenda := base.facts
  entailed := ∅
  pending := base.rules.map .ofRule

/-- Takes a symbol, with `agenda` the symbols that wait behind it. -/
def take (s : State) (p : Symbol) (agenda : List Symbol) : State where
  agenda := agenda ++ s.pending.filterMap (·.fired? p)
  entailed := s.entailed.insert p
  pending := s.pending.map (·.take p)

/-- The state after the first symbol of the agenda was looked at. There is none once the agenda is
empty or the goal would be taken. -/
def next? (goal : Symbol) (s : State) : Option State :=
  match s.agenda with
  | [] => none
  | p :: agenda =>
    if p ∈ s.entailed then some { s with agenda }
    else if p = goal then none
    else some (s.take p agenda)

/-- The counts of some rules, added up. -/
def totalMissing : List Pending → Nat
  | [] => 0
  | w :: ws => w.missing + totalMissing ws

/-- What every step lowers. -/
def effort (s : State) : Nat :=
  s.agenda.length + 2 * totalMissing s.pending

/-- The heads that a symbol adds to the agenda are paid for by the counts it lowers. -/
theorem length_fired_add_totalMissing_le (p : Symbol) (ws : List Pending) :
    (ws.filterMap (·.fired? p)).length + 2 * totalMissing (ws.map (·.take p)) ≤
      2 * totalMissing ws := by
  induction ws with
  | nil => simp [totalMissing]
  | cons w ws ih =>
    have here : (w.fired? p).toList.length + 2 * (w.take p).missing ≤ 2 * w.missing :=
      w.fired_add_missing_le p
    simp only [List.map_cons, totalMissing]
    cases fired : w.fired? p with
    | none =>
      -- The rule adds nothing, and its count does not rise.
      simp only [List.filterMap_cons, fired]
      omega
    | some head =>
      -- The rule adds its head, and its count sinks by one.
      simp only [fired, Option.toList_some, List.length_singleton] at here
      simp only [List.filterMap_cons, fired, List.length_cons]
      omega

theorem effort_take_lt {s : State} {p : Symbol} {agenda : List Symbol}
    (h : s.agenda = p :: agenda) : (s.take p agenda).effort < s.effort := by
  have paid := length_fired_add_totalMissing_le p s.pending
  simp only [effort, take, h, List.length_append, List.length_cons]
  omega

theorem effort_lt_of_next? {goal : Symbol} {s t : State} (h : s.next? goal = some t) :
    t.effort < s.effort := by
  unfold next? at h
  split at h
  · cases h
  · next agenda =>
    split at h
    · cases h
      simp [effort, agenda]
    · split at h
      · cases h
      · cases h
        exact effort_take_lt agenda

/-- The last state of the chain. -/
def run (goal : Symbol) (s : State) : State :=
  match _step : s.next? goal with
  | none => s
  | some t => t.run goal
termination_by s.effort
decreasing_by exact effort_lt_of_next? ‹_›

end State

end Entailment.Forward

namespace Entailment

/-- Chains from the facts until the goal is taken or the agenda is empty. With `withAgenda` the
symbols that wait behind the goal are reported as well. -/
def forwardChain (base : HornBase) (goal : Symbol) (withAgenda : Bool) : ChainingReport :=
  let last := (Forward.State.start base).run goal
  match last.agenda with
  | [] => ⟨false, last.entailed⟩
  | p :: waiting =>
    let entailed := last.entailed.insert p
    ⟨true, if withAgenda then entailed.insertAll waiting else entailed⟩

end Entailment
