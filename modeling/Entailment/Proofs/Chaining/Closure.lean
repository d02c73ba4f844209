import Entailment.Horn.Basic
import Entailment.Proofs.Valuation

/-!
# What follows from facts and rules

The symbols that follow from a base are those of the least set that has its facts and is closed
under its rules. They are also the symbols that are true under every valuation on which the facts
and rules hold (`follows_iff_forall_satisfied`), since the least set is such a valuation itself.
-/

namespace Entailment

/-- If all symbols of the body are true, so is the head. -/
def HornRule.Holds (r : HornRule) (v : Valuation) : Prop :=
  (∀ p ∈ r.body, v p.name = true) → v r.head.name = true

namespace HornBase

/-- The set has all facts, and with the body of a rule also its head. -/
structure Closed (base : HornBase) (S : Symbol → Prop) : Prop where
  facts : ∀ p ∈ base.facts, S p
  rules : ∀ r ∈ base.rules, (∀ p ∈ r.body, S p) → S r.head

/-- The least closed set. -/
inductive Follows (base : HornBase) : Symbol → Prop
  | fact {p : Symbol} (h : p ∈ base.facts) : Follows base p
  | rule {r : HornRule} (h : r ∈ base.rules) (body : ∀ p ∈ r.body, Follows base p) :
    Follows base r.head

/-- Every fact and every rule is true under the valuation. -/
structure Satisfied (base : HornBase) (v : Valuation) : Prop where
  facts : ∀ p ∈ base.facts, v p.name = true
  rules : ∀ r ∈ base.rules, r.Holds v

variable {base : HornBase} {S : Symbol → Prop} {p : Symbol} {v : Valuation}

theorem closed_follows (base : HornBase) : base.Closed base.Follows where
  facts _ h := .fact h
  rules _ h body := .rule h body

theorem Closed.of_follows (hS : base.Closed S) (h : base.Follows p) : S p := by
  induction h with
  | fact h => exact hS.facts _ h
  | rule h _ ih => exact hS.rules _ h ih

/-- The symbols that are true where the facts and rules are form a closed set. -/
theorem Satisfied.closed (h : base.Satisfied v) : base.Closed fun p => v p.name = true :=
  ⟨h.facts, h.rules⟩

theorem follows_iff_forall_satisfied :
    base.Follows p ↔ ∀ v, base.Satisfied v → v p.name = true := by
  constructor
  · intro h v hv
    exact hv.closed.of_follows h
  · intro h
    classical
    -- A symbol is given by its name, so the least closed set is a valuation.
    let least : Valuation := fun name => decide (∃ q : Symbol, q.name = name ∧ base.Follows q)
    have hl : ∀ q : Symbol, least q.name = true ↔ base.Follows q := by
      intro q
      rw [decide_eq_true_iff]
      constructor
      · intro hq
        obtain ⟨q', hn, hq'⟩ := hq
        exact Symbol.ext hn ▸ hq'
      · intro hq
        exact ⟨q, rfl, hq⟩
    have satisfied : base.Satisfied least := by
      constructor
      · intro q hq
        exact (hl q).2 ((closed_follows base).facts q hq)
      · intro r hr body
        have follows : ∀ q ∈ r.body, base.Follows q := fun q hq => (hl q).1 (body q hq)
        exact (hl r.head).2 ((closed_follows base).rules r hr follows)
    exact (hl p).1 (h least satisfied)

end HornBase

end Entailment
