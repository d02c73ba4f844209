import Entailment.Literal

/-!
# Symbol tables

A symbol table keeps one literal for each symbol that has been read. Reading registers symbols as
it meets them, also when the text turns out to be no sentence, so `Registering` threads the table
through errors.
-/

namespace Entailment

/-- The literal kept for each symbol, by the name of the symbol. -/
abbrev SymbolTable := SortedMap String Literal

/-- A computation that registers symbols and may find that its text is no sentence. -/
abbrev Registering := ExceptT ParseError (StateM SymbolTable)

namespace SymbolTable

/-- Every name maps to the positive literal of that name. -/
def Canonical (table : SymbolTable) : Prop :=
  ∀ entry ∈ table.entries, entry.2.name = entry.1 ∧ entry.2.negated = false

/-- The literal kept for a symbol, which is registered first if it is new. -/
def register (symbol : Symbol) : Registering Literal := do
  match (← get).get? symbol.name with
  | some literal => return literal
  | none =>
    modify (·.insert symbol.name (.positive symbol))
    return .positive symbol

end SymbolTable

end Entailment
