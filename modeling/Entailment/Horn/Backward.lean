import Entailment.Horn.Basic

/-!
# Backward chaining

From the query towards the facts: a goal is proven if it is known, or a fact, or the head of a rule
whose body can be proven, the rules being tried in order. Whatever is proven on the way stays known,
also if the attempt fails later.

A goal that is being proven already fails, so rules that lead back to their own head do not go on
for ever. The goals being proven form the `path`, and `openRules` counts the rules that can still
extend it.
-/

namespace Entailment.Backward

/-- The number of rules whose heads are not on the path. -/
def openRules (base : HornBase) (path : List Symbol) : Nat :=
  (base.rules.filter (·.head ∉ path)).length

/-- A goal off the path that is the head of some rule leaves fewer rules when it joins the path. -/
theorem openRules_cons_lt {base : HornBase} {path : List Symbol} {goal : Symbol}
    (off : goal ∉ path) (concluded : ∃ r ∈ base.rules, r.head = goal) :
    openRules base (goal :: path) < openRules base path := by
  obtain ⟨r, hr, rfl⟩ := concluded
  have split : base.rules.filter (·.head ∉ r.head :: path) =
      (base.rules.filter (·.head ∉ path)).filter (·.head ≠ r.head) := by
    rw [List.filter_filter]
    refine List.filter_congr fun q _ => ?_
    simp [not_or]
  rw [openRules, openRules, split]
  refine List.length_filter_lt_length_iff_exists.2 ⟨r, ?_, by simp⟩
  simpa using ⟨hr, off⟩

mutual

/-- Whether a goal can be proven, and what is known then. -/
def prove (base : HornBase) (path : List Symbol) (goal : Symbol) (known : SortedSet Symbol) :
    Bool × SortedSet Symbol :=
  if goal ∈ known then (true, known)
  else if goal ∈ base.facts then (true, known.insert goal)
  else if _off : goal ∈ path then (false, known)
  else if _concluded : ∃ r ∈ base.rules, r.head = goal then
    match proveByRules base (goal :: path) (base.rules.filter (·.head = goal)) known with
    | (true, known) => (true, known.insert goal)
    | (false, known) => (false, known)
  else (false, known)
termination_by (openRules base path, 0, 0)
decreasing_by exact .left _ _ (openRules_cons_lt ‹_› ‹_›)

/-- Whether the body of some rule can be proven, trying the rules in order. -/
def proveByRules (base : HornBase) (path : List Symbol) (rules : List HornRule)
    (known : SortedSet Symbol) : Bool × SortedSet Symbol :=
  match rules with
  | [] => (false, known)
  | r :: rules =>
    match proveAll base path r.body known with
    | (true, known) => (true, known)
    | (false, known) => proveByRules base path rules known
termination_by (openRules base path, 2, rules.length)

/-- Whether all of some goals can be proven, from left to right up to the first that cannot. -/
def proveAll (base : HornBase) (path : List Symbol) (goals : List Symbol)
    (known : SortedSet Symbol) : Bool × SortedSet Symbol :=
  match goals with
  | [] => (true, known)
  | goal :: goals =>
    match prove base path goal known with
    | (true, known) => proveAll base path goals known
    | (false, known) => (false, known)
termination_by (openRules base path, 1, goals.length)

end

end Entailment.Backward

namespace Entailment

/-- Chains from the goal back to the facts. -/
def backwardChain (base : HornBase) (goal : Symbol) : ChainingReport :=
  let (found, entailed) := Backward.prove base [] goal ∅
  ⟨found, entailed⟩

end Entailment
