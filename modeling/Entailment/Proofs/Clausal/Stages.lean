import Entailment.Proofs.Clausal.Clauses

/-!
# The stages of the way to clauses

Five passes, one after the other, take a sentence to a conjunction of disjunctions of atoms. Each of
them is there for one thing (`Pass.Establishes`), and it can rely on what the stages before it have
done: pushing negations brings each over an atom only if expansion has left no other connectives for
it to stop at. No stage undoes what one before it has done, on any sentence (`stages_keptBy`). So
after any number of stages all that they are there for holds (`stages_establish`), and when the
sentence is taken apart at last, every disjunct is an atom and none is passed over.
-/

namespace Entailment.Sentence

variable {s : Sentence}

/-! ## What a stage is there for -/

/-- A negation that is not over an atom. -/
def NegatesCompound : Sentence → Prop
  | negation (negation _) => True
  | negation (binary _ _ _) => True
  | _ => False

theorem isNegation_of_negatesCompound (s : Sentence) (h : s.NegatesCompound) : s.IsNegation := by
  cases s with
  | atomic a => exact h
  | negation operand => trivial
  | binary c left right => exact h

/-- The passes from a sentence to its clausal form, in their order. -/
def stages : List Pass :=
  [.expandBiconditionals, .expandImplications, .pushNegations, .absorbNegations, .distribute]

/-- What holds after a stage, and is its own doing. Passes that are no stages settle nothing. -/
def Pass.Establishes : Pass → Sentence → Prop
  | expandBiconditionals, s => .biconditional ∉ s.connectives
  | expandImplications, s => .implication ∉ s.connectives
  | pushNegations, s => s.NegationsAtAtoms
  | absorbNegations, s => ¬ s.Has IsNegation
  | distribute, s => s.isClausal = true
  | cancelNegations, _ | deMorgan, _ | distributeOnce, _ => True

theorem rewrite_stages (s : Sentence) : s.rewrite stages = s.clausalForm :=
  rfl

theorem negationsAtAtoms_iff : s.NegationsAtAtoms ↔ ¬ s.Has NegatesCompound := by
  induction s with
  | atomic a => simp [NegationsAtAtoms, Has, NegatesCompound]
  | negation operand ih => cases operand <;> simp [NegationsAtAtoms, Has, NegatesCompound]
  | binary c left right ihl ihr => simp [NegationsAtAtoms, Has, NegatesCompound, ihl, ihr]

/-! ## What a stage leaves alone -/

theorem keptByPass_isNegation : KeptByPass IsNegation where
  junction := fun _ _ _ => id
  negation := fun _ => Iff.rfl
  binary := fun _ _ _ => Iff.rfl

theorem keptByPass_negatesCompound : KeptByPass NegatesCompound where
  junction := fun _ _ _ => id
  negation := by
    intro a
    cases a with
    | atomic a => exact Iff.rfl
    | negation operand => exact Iff.rfl
    | binary c left right =>
      cases c with
      | disjunction =>
        rw [distributeOnce]
        fun_cases disjoin left.distributeOnce right.distributeOnce <;> exact Iff.rfl
      | conjunction | implication | biconditional => exact Iff.rfl
  binary := fun _ _ _ => Iff.rfl

theorem keptByPass_connective {c : Connective} (h : c ≠ .conjunction ∧ c ≠ .disjunction) :
    KeptByPass fun t => t.connective? = some c where
  junction := by
    rintro d (rfl | rfl) a b hd
    · exact h.1 (Option.some.inj hd).symm
    · exact h.2 (Option.some.inj hd).symm
  negation := fun _ => Iff.rfl
  binary := fun _ _ _ => Iff.rfl

/-- Only expansion brings in connectives other than conjunctions and disjunctions. -/
theorem not_mem_connectives_run {c : Connective} (h : c ≠ .conjunction ∧ c ≠ .disjunction)
    {pass : Pass} (hp : pass ∈ [.pushNegations, .absorbNegations, .distribute])
    (hs : c ∉ s.connectives) : c ∉ (pass.run s).connectives := by
  intro hc
  simp only [List.mem_cons, List.not_mem_nil, or_false] at hp
  rcases hp with rfl | rfl | rfl
  · exact not_mem_connectives_pushNegations h hs hc
  · rw [Pass.run, connectives_absorbNegations] at hc
    exact hs hc
  · rw [Pass.run, mem_connectives_iff, has_distribute (keptByPass_connective h)] at hc
    exact hs (mem_connectives_iff.2 hc)

/-! ## The stages in their order -/

/-- The later pass leaves what the earlier one is there for as it is, on any sentence. -/
def Pass.KeptBy (earlier later : Pass) : Prop :=
  ∀ s : Sentence, earlier.Establishes s → earlier.Establishes (later.run s)

/-- No stage undoes what one before it has done. -/
theorem stages_keptBy : stages.Pairwise Pass.KeptBy := by
  refine .cons ?_ (.cons ?_ (.cons ?_ (.cons ?_ (.cons ?_ .nil))))
  · intro later hl s hs
    rcases List.mem_cons.1 hl with rfl | hl
    · exact fun hb => (connectives_expandImplications hb).2.elim hs (by simp)
    · exact not_mem_connectives_run (by simp) hl hs
  · intro later hl s hs
    exact not_mem_connectives_run (by simp) hl hs
  · intro later hl s hs
    rw [Pass.Establishes, negationsAtAtoms_iff]
    rcases List.mem_cons.1 hl with rfl | hl
    · -- There is no negation left, and so none over a compound.
      intro hc
      exact not_has_isNegation_absorbNegations hs (hc.mono isNegation_of_negatesCompound)
    · obtain rfl := List.mem_singleton.1 hl
      rw [Pass.run, has_distribute keptByPass_negatesCompound]
      exact negationsAtAtoms_iff.1 hs
  · intro later hl s hs
    obtain rfl := List.mem_singleton.1 hl
    rw [Pass.Establishes, Pass.run, has_distribute keptByPass_isNegation]
    exact hs
  · simp

variable {n : Nat} {pass : Pass}

/-- A stage does what it is there for, once the stages before it have done so. -/
theorem establishes_own (hn : stages[n]? = some pass)
    (hs : ∀ earlier ∈ stages.take n, earlier.Establishes s) : pass.Establishes (pass.run s) := by
  rcases n with _ | _ | _ | _ | _ | n
  · obtain rfl := Option.some.inj hn
    exact fun hb => connectives_expandBiconditionals hb rfl
  · obtain rfl := Option.some.inj hn
    exact fun hi => (connectives_expandImplications hi).1 rfl
  · obtain rfl := Option.some.inj hn
    have hb := hs .expandBiconditionals (by simp [stages])
    have hi := hs .expandImplications (by simp [stages])
    exact negationsAtAtoms_pushNegations hi hb
  · obtain rfl := Option.some.inj hn
    exact not_has_isNegation_absorbNegations (hs .pushNegations (by simp [stages]))
  · obtain rfl := Option.some.inj hn
    have hb := hs .expandBiconditionals (by simp [stages])
    have hi := hs .expandImplications (by simp [stages])
    have ha := hs .absorbNegations (by simp [stages])
    exact isClausal_distribute (isJunctive_of_not_has_isNegation hi hb ha)
  · simp [stages] at hn

theorem keptBy_of_mem_take {earlier : Pass} (hn : stages[n]? = some pass)
    (he : earlier ∈ stages.take n) : earlier.KeptBy pass := by
  have h := stages_keptBy.sublist (List.take_sublist (n + 1) stages)
  rw [List.take_add_one, hn, List.pairwise_append] at h
  exact h.2.2 earlier he pass List.mem_cons_self

theorem rewrite_append (s : Sentence) (passes : List Pass) :
    s.rewrite (passes ++ [pass]) = pass.run (s.rewrite passes) := by
  rw [rewrite, List.foldl_append]
  rfl

/-- After any number of stages, all that these stages are there for holds. -/
theorem establishes_rewrite (s : Sentence) (n : Nat) :
    ∀ pass ∈ stages.take n, pass.Establishes (s.rewrite (stages.take n)) := by
  induction n with
  | zero => simp
  | succ n ih =>
    rw [List.take_add_one]
    cases hn : stages[n]? with
    | none => simpa using ih
    | some next =>
      rw [Option.toList, rewrite_append]
      intro pass hp
      rcases List.mem_append.1 hp with hp | hp
      · exact keptBy_of_mem_take hn hp _ (ih pass hp)
      · rw [List.mem_singleton.1 hp]
        exact establishes_own hn ih

/-- After any number of stages, all that these stages are there for holds, and no stage undoes what
one before it has done, on any sentence. So the clausal form is a conjunction of disjunctions, and
taking it apart passes over no disjunct, as all of them are atoms. -/
theorem stages_establish (s : Sentence) :
    (∀ n, ∀ pass ∈ stages.take n, pass.Establishes (s.rewrite (stages.take n))) ∧
    stages.Pairwise Pass.KeptBy ∧
    s.rewrite stages = s.clausalForm ∧ s.clausalForm.isClausal = true ∧
    ∀ conjunct ∈ s.clausalForm.partsAt .conjunction,
      ∀ disjunct ∈ conjunct.partsAt .disjunction, ∃ a, disjunct = atomic a := by
  refine ⟨establishes_rewrite s, stages_keptBy, rewrite_stages s, s.isClausal_clausalForm, ?_⟩
  intro conjunct hc disjunct hd
  have hatoms := isDisjunctionOfAtoms_of_mem_partsAt s.isClausal_clausalForm hc
  exact exists_atom_of_mem_partsAt hatoms hd

end Entailment.Sentence
