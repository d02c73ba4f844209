import Entailment.SortedMap

/-!
# Models

A model gives some of its symbols a truth value. The symbols it lists without a value are those
that may take either one. The names of symbols are arbitrary strings here, so that a model can
speak of symbols that no sentence could.
-/

namespace Entailment

/-- The symbols of a model, each with its truth value, if it has one. -/
abbrev Model := SortedMap String (Option Bool)

/-- Why an evaluation fails. -/
inductive ModelError
  /-- A symbol has no value on the model. -/
  | unassigned (symbol : String)
deriving DecidableEq

/-- The wording of the error. -/
def ModelError.message : ModelError → String
  | .unassigned symbol => s!"Symbol {symbol} has no value on the model"

/-- The written form of a truth value, or of its absence. -/
def valueText : Option Bool → String
  | some true => "True"
  | some false => "False"
  | none => "None"

namespace Model

/-- The model on the given symbols in which no symbol has a value. -/
def unassigned (symbols : List String) : Model :=
  SortedMap.const symbols none

/-- The truth value of a symbol, if the symbol is in the model and has one. -/
def assigned (m : Model) (symbol : String) : Option Bool :=
  (m.get? symbol).join

/-- Gives a symbol a truth value, and adds the symbol if the model lacks it. -/
def set (m : Model) (symbol : String) (value : Bool) : Model :=
  m.insert symbol (some value)

@[simp] theorem assigned_unassigned (symbols : List String) (symbol : String) :
    assigned (unassigned symbols) symbol = none := by
  rw [assigned, unassigned, SortedMap.get?_const]
  split <;> rfl

theorem mem_unassigned {symbols : List String} {symbol : String} :
    symbol ∈ unassigned symbols ↔ symbol ∈ symbols := by
  rw [SortedMap.mem_iff_get?, unassigned, SortedMap.get?_const]
  split <;> simp_all

@[simp] theorem assigned_set (m : Model) (symbol other : String) (value : Bool) :
    (m.set symbol value).assigned other =
      if other = symbol then some value else m.assigned other := by
  rw [assigned, set, SortedMap.get?_insert]
  split <;> rfl

/-- The order of two entries: by symbol, then no value before false before true. -/
def compareEntries : String × Option Bool → String × Option Bool → Ordering :=
  compareLex (compareOn Prod.fst) (compareOn Prod.snd)

/-- Models are ordered as the lists of their entries, lexicographically. -/
instance : Ord Model where
  compare m n := List.compareLex compareEntries m.entries n.entries

/-- The written form: each symbol with its value, in alphabetical order. -/
def text (m : Model) : String :=
  " | ".intercalate (m.entries.map fun (symbol, value) => symbol ++ ": " ++ valueText value)

end Model

end Entailment
