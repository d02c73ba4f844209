import Entailment.Proofs.Chaining.Backward

/-!
# Chaining backward on one memory

A proof can also be run on one memory that all its calls share, with the symbols that are known and
the goals that are in progress (`Runs`). A goal is in progress while its rules are tried, and when
it comes up again meanwhile it fails. Nothing but this stops the calls, so that a call comes to an
end is something to prove. It does, with the result of `prove` for the goals in progress as its
path, and the goals in progress are then what they were (`runs_prove`).

Failure leaves the goal unknown. It cannot have become known on the way, since no goal in progress
does unless it is a fact (`Runs.mem_known_of_inProgress`). What is known grows step by step, by
facts and by heads of rules whose bodies are known, and the order in which it does so justifies it.
-/

namespace Entailment

namespace Backward

variable {base : HornBase} {p goal : Symbol}

/-! ## One memory for all calls -/

/-- What the calls of a proof share. -/
structure Memory where
  known : SortedSet Symbol
  inProgress : SortedSet Symbol
deriving DecidableEq

namespace Memory

/-- The memory with one symbol more that is known. -/
def learn (m : Memory) (p : Symbol) : Memory :=
  { m with known := m.known.insert p }

/-- The memory with one goal more in progress. -/
def enter (m : Memory) (goal : Symbol) : Memory :=
  { m with inProgress := m.inProgress.insert goal }

/-- The memory with one goal less in progress. -/
def leave (m : Memory) (goal : Symbol) : Memory :=
  { m with inProgress := m.inProgress.erase goal }

theorem leave_insert {known inProgress : SortedSet Symbol} (h : goal ∉ inProgress) :
    leave ⟨known, inProgress.insert goal⟩ goal = ⟨known, inProgress⟩ := by
  rw [leave, SortedSet.erase_insert h]

end Memory

/-- What there is to prove: a goal, the body of some rule, or all of some goals. -/
inductive Call
  | goal (goal : Symbol)
  | rules (rules : List HornRule)
  | goals (goals : List Symbol)

/-- The call comes to an end on the memory, with success or without, and leaves a memory behind. A
call that goes on for ever has no end. -/
inductive Runs (base : HornBase) : Call → Memory → Bool → Memory → Prop
  | known {m : Memory} {goal : Symbol} (hk : goal ∈ m.known) : Runs base (.goal goal) m true m
  | fact {m : Memory} {goal : Symbol} (hk : goal ∉ m.known) (hf : goal ∈ base.facts) :
    Runs base (.goal goal) m true (m.learn goal)
  | cycle {m : Memory} {goal : Symbol} (hk : goal ∉ m.known) (hf : goal ∉ base.facts)
    (hp : goal ∈ m.inProgress) : Runs base (.goal goal) m false m
  | proven {m m' : Memory} {goal : Symbol} (hk : goal ∉ m.known) (hf : goal ∉ base.facts)
    (hp : goal ∉ m.inProgress)
    (tried : Runs base (.rules (base.rules.filter (·.head = goal))) (m.enter goal) true m') :
    Runs base (.goal goal) m true ((m'.leave goal).learn goal)
  | unproven {m m' : Memory} {goal : Symbol} (hk : goal ∉ m.known) (hf : goal ∉ base.facts)
    (hp : goal ∉ m.inProgress)
    (tried : Runs base (.rules (base.rules.filter (·.head = goal))) (m.enter goal) false m') :
    Runs base (.goal goal) m false (m'.leave goal)
  | noRules {m : Memory} : Runs base (.rules []) m false m
  | firstRule {m m' : Memory} {r : HornRule} {rules : List HornRule}
    (tried : Runs base (.goals r.body) m true m') : Runs base (.rules (r :: rules)) m true m'
  | nextRules {m m' last : Memory} {r : HornRule} {rules : List HornRule} {success : Bool}
    (tried : Runs base (.goals r.body) m false m')
    (rest : Runs base (.rules rules) m' success last) :
    Runs base (.rules (r :: rules)) m success last
  | noGoals {m : Memory} : Runs base (.goals []) m true m
  | firstGoal {m m' : Memory} {goal : Symbol} {goals : List Symbol}
    (tried : Runs base (.goal goal) m false m') : Runs base (.goals (goal :: goals)) m false m'
  | nextGoals {m m' last : Memory} {goal : Symbol} {goals : List Symbol} {success : Bool}
    (tried : Runs base (.goal goal) m true m') (rest : Runs base (.goals goals) m' success last) :
    Runs base (.goals (goal :: goals)) m success last

namespace Runs

variable {call : Call} {m m' last : Memory} {success success' : Bool}

/-! ## The memory left behind -/

/-- The goals in progress are what they were. -/
theorem inProgress_eq (h : Runs base call m success m') : m'.inProgress = m.inProgress := by
  induction h with
  | known | fact | cycle | noRules | noGoals => rfl
  | proven _ _ hp _ ih | unproven _ _ hp _ ih =>
    refine (congrArg (SortedSet.erase · _) ih).trans ?_
    exact SortedSet.erase_insert hp
  | firstRule _ ih | firstGoal _ ih => exact ih
  | nextRules _ _ ih ihs | nextGoals _ _ ih ihs => exact ihs.trans ih

/-- No goal in progress becomes known, unless it is a fact. -/
theorem mem_known_of_inProgress (h : Runs base call m success m') (hp : p ∈ m.inProgress)
    (hf : p ∉ base.facts) (hl : p ∈ m'.known) : p ∈ m.known := by
  induction h with
  | known | cycle | noRules | noGoals => exact hl
  | fact _ hg =>
    refine (SortedSet.mem_insert.1 hl).resolve_left ?_
    rintro rfl
    exact hf hg
  | proven _ _ hg _ ih =>
    refine ih (SortedSet.mem_insert.2 (.inr hp)) ((SortedSet.mem_insert.1 hl).resolve_left ?_)
    rintro rfl
    exact hg hp
  | unproven _ _ _ _ ih => exact ih (SortedSet.mem_insert.2 (.inr hp)) hl
  | firstRule _ ih | firstGoal _ ih => exact ih hp hl
  | nextRules tried _ ih ihs | nextGoals tried _ ih ihs =>
    exact ih hp (ihs (tried.inProgress_eq ▸ hp) hl)

/-- A goal is known afterwards exactly if it was proven. -/
theorem success_iff (h : Runs base (.goal goal) m success m') :
    success = true ↔ goal ∈ m'.known := by
  cases h with
  | known hk => exact iff_of_true rfl hk
  | fact | proven => exact iff_of_true rfl (SortedSet.mem_insert.2 (.inl rfl))
  | cycle hk => exact iff_of_false Bool.false_ne_true hk
  | unproven hk hf _ tried =>
    -- The goal was in progress while its rules were tried.
    refine iff_of_false Bool.false_ne_true fun hl => hk ?_
    exact tried.mem_known_of_inProgress (SortedSet.mem_insert.2 (.inl rfl)) hf hl

/-- A call has one end at most. -/
theorem unique (h : Runs base call m success m') (h' : Runs base call m success' last) :
    success = success' ∧ m' = last := by
  induction h generalizing success' last with
  | known hk =>
    cases h' with
    | known => exact ⟨rfl, rfl⟩
    | fact hk' | cycle hk' | proven hk' | unproven hk' => exact absurd hk hk'
  | fact hk hf =>
    cases h' with
    | known hk' => exact absurd hk' hk
    | fact => exact ⟨rfl, rfl⟩
    | cycle _ hf' | proven _ hf' | unproven _ hf' => exact absurd hf hf'
  | cycle hk hf hp =>
    cases h' with
    | known hk' => exact absurd hk' hk
    | fact _ hf' => exact absurd hf' hf
    | cycle => exact ⟨rfl, rfl⟩
    | proven _ _ hp' | unproven _ _ hp' => exact absurd hp hp'
  | proven hk hf hp _ ih =>
    cases h' with
    | known hk' => exact absurd hk' hk
    | fact _ hf' => exact absurd hf' hf
    | cycle _ _ hp' => exact absurd hp' hp
    | proven _ _ _ tried =>
      obtain ⟨-, rfl⟩ := ih tried
      exact ⟨rfl, rfl⟩
    | unproven _ _ _ tried => cases (ih tried).1
  | unproven hk hf hp _ ih =>
    cases h' with
    | known hk' => exact absurd hk' hk
    | fact _ hf' => exact absurd hf' hf
    | cycle _ _ hp' => exact absurd hp' hp
    | proven _ _ _ tried => cases (ih tried).1
    | unproven _ _ _ tried =>
      obtain ⟨-, rfl⟩ := ih tried
      exact ⟨rfl, rfl⟩
  | noRules =>
    cases h'
    exact ⟨rfl, rfl⟩
  | firstRule _ ih =>
    cases h' with
    | firstRule tried => exact ih tried
    | nextRules tried => cases (ih tried).1
  | nextRules _ _ ih ihs =>
    cases h' with
    | firstRule tried => cases (ih tried).1
    | nextRules tried rest =>
      obtain ⟨-, rfl⟩ := ih tried
      exact ihs rest
  | noGoals =>
    cases h'
    exact ⟨rfl, rfl⟩
  | firstGoal _ ih =>
    cases h' with
    | firstGoal tried => exact ih tried
    | nextGoals tried => cases (ih tried).1
  | nextGoals _ _ ih ihs =>
    cases h' with
    | firstGoal tried => cases (ih tried).1
    | nextGoals tried rest =>
      obtain ⟨-, rfl⟩ := ih tried
      exact ihs rest

end Runs

/-! ## Every call ends -/

/-- On a memory that has the goals of the path in progress, the call ends with the result and leaves
the goals in progress as they are. -/
def Yields (base : HornBase) (path : List Symbol) (known : SortedSet Symbol) (call : Call)
    (result : Bool × SortedSet Symbol) : Prop :=
  ∀ inProgress : SortedSet Symbol, (∀ p, p ∈ inProgress ↔ p ∈ path) →
    Runs base call ⟨known, inProgress⟩ result.1 ⟨result.2, inProgress⟩

namespace Yields

variable {path : List Symbol} {known later inProgress : SortedSet Symbol} {call : Call}
  {success : Bool}

/-- A goal that joins the path is in progress as well. -/
theorem enter (h : Yields base (goal :: path) known call (success, later))
    (same : ∀ p, p ∈ inProgress ↔ p ∈ path) :
    Runs base call (Memory.enter ⟨known, inProgress⟩ goal) success
      ⟨later, inProgress.insert goal⟩ := by
  refine h (inProgress.insert goal) fun p => ?_
  rw [SortedSet.mem_insert, List.mem_cons, same]

theorem proven (hk : goal ∉ known) (hf : goal ∉ base.facts) (hp : goal ∉ path)
    (h : Yields base (goal :: path) known (.rules (base.rules.filter (·.head = goal)))
      (true, later)) :
    Yields base path known (.goal goal) (true, later.insert goal) := by
  intro inProgress same
  have off : goal ∉ inProgress := mt (same goal).1 hp
  have run := Runs.proven hk hf off (h.enter same)
  rwa [Memory.leave_insert off] at run

theorem unproven (hk : goal ∉ known) (hf : goal ∉ base.facts) (hp : goal ∉ path)
    (h : Yields base (goal :: path) known (.rules (base.rules.filter (·.head = goal)))
      (false, later)) :
    Yields base path known (.goal goal) (false, later) := by
  intro inProgress same
  have off : goal ∉ inProgress := mt (same goal).1 hp
  have run := Runs.unproven hk hf off (h.enter same)
  rwa [Memory.leave_insert off] at run

end Yields

/-- The calls on one memory end as the calls with a path do. The induction is on the latter. -/
theorem yields_prove_and (base : HornBase) :
    (∀ path goal known, Yields base path known (.goal goal) (prove base path goal known)) ∧
    (∀ path rules known,
      Yields base path known (.rules rules) (proveByRules base path rules known)) ∧
    ∀ path goals known, Yields base path known (.goals goals) (proveAll base path goals known) := by
  refine prove.mutual_induct base _ _ _ ?known ?fact ?cycle ?proven ?unproven ?headless
    ?noRules ?firstRule ?nextRules ?noGoals ?nextGoals ?firstGoal
  case known =>
    intro path goal known hk inProgress _
    rw [prove, if_pos hk]
    exact .known hk
  case fact =>
    intro path goal known hk hf inProgress _
    rw [prove, if_neg hk, if_pos hf]
    exact .fact hk hf
  case cycle =>
    intro path goal known hk hf hp inProgress same
    rw [prove, if_neg hk, if_neg hf, dif_pos hp]
    exact .cycle hk hf ((same goal).2 hp)
  case proven =>
    intro path goal known hk hf hp hc later he ih
    rw [prove, if_neg hk, if_neg hf, dif_neg hp, dif_pos hc, he]
    rw [he] at ih
    exact ih.proven hk hf hp
  case unproven =>
    intro path goal known hk hf hp hc later he ih
    rw [prove, if_neg hk, if_neg hf, dif_neg hp, dif_pos hc, he]
    rw [he] at ih
    exact ih.unproven hk hf hp
  case headless =>
    intro path goal known hk hf hp hc
    rw [prove, if_neg hk, if_neg hf, dif_neg hp, dif_neg hc]
    have none : base.rules.filter (·.head = goal) = [] := by
      rw [List.filter_eq_nil_iff]
      intro r hr hg
      exact hc ⟨r, hr, of_decide_eq_true hg⟩
    refine Yields.unproven hk hf hp ?_
    rw [none]
    exact fun _ _ => .noRules
  case noRules =>
    intro path known inProgress _
    rw [proveByRules]
    exact .noRules
  case firstRule =>
    intro path known r rules later he ih inProgress same
    rw [proveByRules, he]
    rw [he] at ih
    exact .firstRule (ih inProgress same)
  case nextRules =>
    intro path known r rules mid he ih ihs inProgress same
    rw [proveByRules, he]
    rw [he] at ih
    exact .nextRules (ih inProgress same) (ihs inProgress same)
  case noGoals =>
    intro path known inProgress _
    rw [proveAll]
    exact .noGoals
  case nextGoals =>
    intro path known goal goals mid he ih ihs inProgress same
    rw [proveAll, he]
    rw [he] at ih
    exact .nextGoals (ih inProgress same) (ihs inProgress same)
  case firstGoal =>
    intro path known goal goals later he ih inProgress same
    rw [proveAll, he]
    rw [he] at ih
    exact .firstGoal (ih inProgress same)

theorem runs_prove (base : HornBase) (goal : Symbol) (m : Memory) :
    Runs base (.goal goal) m (prove base m.inProgress.toList goal m.known).1
      { m with known := (prove base m.inProgress.toList goal m.known).2 } :=
  (yields_prove_and base).1 m.inProgress.toList goal m.known m.inProgress fun _ => .rfl

end Backward

/-! ## The order of becoming known -/

/-- The list has the symbols of the set, each once, and each of them is a fact or the head of a rule
whose body comes before it. -/
structure HornBase.Justifies (base : HornBase) (order : List Symbol) (S : SortedSet Symbol) :
    Prop where
  nodup : order.Nodup
  mem_iff : ∀ p, p ∈ order ↔ p ∈ S
  before : ∀ earlier p after, order = earlier ++ p :: after →
    p ∈ base.facts ∨ ∃ r ∈ base.rules, r.head = p ∧ ∀ q ∈ r.body, q ∈ earlier

section
variable {base : HornBase} {order : List Symbol} {S later : SortedSet Symbol} {p : Symbol}

namespace HornBase

theorem justifies_nil (base : HornBase) : base.Justifies [] ∅ where
  nodup := .nil
  mem_iff p := by simp
  before earlier p after h := by simp at h

/-- What is justified by a set may come after its order. -/
theorem Justifies.exists_insert (h : base.Justifies order S)
    (hp : p ∈ base.facts ∨ ∃ r ∈ base.rules, r.head = p ∧ ∀ q ∈ r.body, q ∈ S) :
    ∃ order, base.Justifies order (S.insert p) := by
  by_cases hm : p ∈ S
  · exact ⟨order, (SortedSet.insert_of_mem hm).symm ▸ h⟩
  · refine ⟨order ++ [p], ?_, ?_, ?_⟩
    · have fresh : p ∉ order := mt (h.mem_iff p).1 hm
      exact (List.perm_append_singleton p order).nodup_iff.2 (List.nodup_cons.2 ⟨fresh, h.nodup⟩)
    · intro q
      rw [List.mem_append, List.mem_singleton, h.mem_iff, SortedSet.mem_insert, or_comm]
    · intro earlier q after split
      rcases after.eq_nil_or_concat with rfl | ⟨rest, last, rfl⟩
      · obtain ⟨rfl, hq⟩ := List.append_inj' split rfl
        cases hq
        refine hp.imp_right fun hr => ?_
        obtain ⟨r, hr, hh, body⟩ := hr
        exact ⟨r, hr, hh, fun b hb => (h.mem_iff b).2 (body b hb)⟩
      · -- The new symbol is the last one, so what stood before it is split already.
        rw [List.concat_eq_append, ← List.cons_append, ← List.append_assoc] at split
        exact h.before earlier q rest (List.append_inj' split rfl).1

end HornBase

theorem Backward.Grows.exists_justifies (h : Grows base ∅ later) :
    ∃ order, base.Justifies order later := by
  induction h with
  | refl => exact ⟨[], base.justifies_nil⟩
  | fact _ hp ih =>
    obtain ⟨order, ho⟩ := ih
    exact ho.exists_insert (.inl hp)
  | rule _ hr body ih =>
    obtain ⟨order, ho⟩ := ih
    exact ho.exists_insert (.inr ⟨_, hr, rfl, body⟩)

/-- On every base and from every memory a proof comes to one end. It leaves the goals in progress as
they were, what was known stays known, and the goal is known afterwards exactly if it was proven.
Chaining is a proof on the empty memory, and what it reports is justified in some order: each symbol
is a fact, or the head of a rule whose body comes before it. So all that is reported follows. -/
theorem backwardChain_justifies (base : HornBase) (goal : Symbol) :
    (∀ m : Backward.Memory, ∃ success later,
      Backward.Runs base (.goal goal) m success { m with known := later } ∧
      (∀ success' last, Backward.Runs base (.goal goal) m success' last →
        success' = success ∧ last = { m with known := later }) ∧
      Backward.prove base m.inProgress.toList goal m.known = (success, later) ∧
      (∀ p ∈ m.known, p ∈ later) ∧ (success = true ↔ goal ∈ later)) ∧
    Backward.Runs base (.goal goal) ⟨∅, ∅⟩ (backwardChain base goal).found
      ⟨(backwardChain base goal).entailed, ∅⟩ ∧
    (∃ order, base.Justifies order (backwardChain base goal).entailed) ∧
    ∀ p ∈ (backwardChain base goal).entailed, base.Follows p := by
  refine ⟨fun m => ?_, Backward.runs_prove base goal ⟨∅, ∅⟩, ?_,
    fun p => follows_of_mem_backwardChain⟩
  · have run := Backward.runs_prove base goal m
    have attempt := Backward.attempt_prove base m.inProgress.toList goal m.known
    exact ⟨_, _, run, fun success' last run' => run'.unique run, rfl,
      fun p => attempt.grows.mem, run.success_iff⟩
  · exact (Backward.attempt_prove base [] goal ∅).grows.exists_justifies

end

end Entailment
