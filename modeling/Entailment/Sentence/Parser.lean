import Entailment.Sentence.Outline
import Entailment.SymbolTable
import Entailment.Text.Blank

/-!
# Reading sentences

A text is read by its outline, part by part from left to right. Chains of connectives nest to the
right: `a & b => c` is read as `a & (b => c)`.

Each symbol read is registered in a table, which supplies the literal that goes into the sentence.
-/

namespace Entailment.Sentence

/-- Reads a text without blanks as a sentence. -/
def read (text : List Char) : Registering Sentence :=
  match _outlined : outline text with
  | .error e => throw e
  | .ok (.constant value) => return constant value
  | .ok (.literal symbol negated) => do
    let known ← SymbolTable.register symbol
    return literal (if negated then known.negate else known)
  | .ok (.bracketed inside) => read inside
  | .ok (.negated operand) => return negation (← read operand)
  | .ok (.joined left (.error e)) => do
    let _ ← read left
    throw e
  | .ok (.joined left (.ok (connective, right))) =>
    return binary connective (← read left) (← read right)
termination_by text.length
decreasing_by
  all_goals exact length_lt_of_outline ‹outline text = _› _ (by simp [Outline.parts])

/-! ## Reading, by the outline of the text -/

section
variable {text : List Char}

theorem read_of_error {e : ParseError} (h : outline text = .error e) : read text = throw e := by
  rw [read]
  split <;> simp_all

theorem read_of_constant {value : Bool} (h : outline text = .ok (.constant value)) :
    read text = pure (constant value) := by
  rw [read]
  split <;> simp_all

theorem read_of_literal {symbol : Symbol} {negated : Bool}
    (h : outline text = .ok (.literal symbol negated)) :
    read text = (do
      let known ← SymbolTable.register symbol
      return literal (if negated then known.negate else known)) := by
  rw [read]
  split <;> simp_all

theorem read_of_bracketed {inside : List Char} (h : outline text = .ok (.bracketed inside)) :
    read text = read inside := by
  rw [read]
  split <;> simp_all

theorem read_of_negated {operand : List Char} (h : outline text = .ok (.negated operand)) :
    read text = do return negation (← read operand) := by
  rw [read]
  split <;> simp_all

theorem read_of_joined_error {left : List Char} {e : ParseError}
    (h : outline text = .ok (.joined left (.error e))) :
    read text = (do let _ ← read left; throw e) := by
  rw [read]
  split <;> simp_all

theorem read_of_joined {left right : List Char} {connective : Connective}
    (h : outline text = .ok (.joined left (.ok (connective, right)))) :
    read text = do return binary connective (← read left) (← read right) := by
  rw [read]
  split <;> simp_all

end

/-- Reads a text without blanks as a sentence, registering its symbols in a table. The table keeps
the symbols read before an error. -/
def parse (text : String) (table : SymbolTable) : Except ParseError Sentence × SymbolTable :=
  (read text.toList).run.run table

end Entailment.Sentence
