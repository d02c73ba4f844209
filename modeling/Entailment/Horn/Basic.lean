import Entailment.KnowledgeBase

/-!
# Knowledge bases as facts and rules

Chaining works on facts, which are symbols, and on rules, which lead from a body of symbols to a
head. `HornBase.ofKnowledgeBase` reads a knowledge base that way, and fails at the first sentence
that is neither a fact nor a rule.

A rule is a chain of conjunctions that ends in an implication. Since chains nest to the right,
`a & b => c` is the sentence `a & (b => c)`; it gives the same rule as `(a & b) => c` does, although
it says more as a sentence.
-/

namespace Entailment

/-- A symbol that holds if all symbols of a body do. -/
structure HornRule where
  /-- The symbols of the premise, from left to right. -/
  body : List Symbol
  head : Symbol
deriving DecidableEq

/-- Facts and rules, each in the order in which they were told. -/
structure HornBase where
  facts : List Symbol
  rules : List HornRule
deriving DecidableEq

/-- Why a sentence is neither a fact nor a rule, or no query for chaining. Each cause carries the
sentence at fault. -/
inductive HornError
  | negatedFact (fact : Sentence)
  | constantFact (fact : Sentence)
  /-- A compound sentence that is no chain of conjunctions with an implication at its end. -/
  | notImplication (rule : Sentence)
  | nonAtomicHead (rule : Sentence)
  | nonPositiveBody (rule : Sentence)
  | nonPositiveQuery (query : Sentence)
deriving DecidableEq

namespace HornError

/-- The sentence at fault. -/
def sentence : HornError → Sentence
  | negatedFact s | constantFact s | notImplication s | nonAtomicHead s | nonPositiveBody s
  | nonPositiveQuery s => s

/-- The wording of the error. -/
def message (e : HornError) : String :=
  let text := e.sentence.text
  match e with
  | negatedFact _ => s!"Fact {text} must be a positive literal"
  | constantFact _ => s!"Fact {text} must be a symbol, not a constant"
  | notImplication _ => s!"Rule {text} is not an implication"
  | nonAtomicHead _ => s!"Rule {text} must conclude a single positive literal"
  | nonPositiveBody _ =>
    s!"Rule {text} must have a conjunction of positive literals as premise"
  | nonPositiveQuery _ => s!"Query {text} must be a single positive literal"

end HornError

namespace HornRule

/-- The symbols of a conjunction of positive literals, from left to right. -/
def bodyOf? : Sentence → Option (List Symbol)
  | .binary .conjunction left right => do return (← bodyOf? left) ++ (← bodyOf? right)
  | s => s.asSymbol.map ([·])

/-- The rest of a rule whose body begins with the given symbols; an error names the whole `rule`. -/
def readChain (rule : Sentence) (body : List Symbol) : Sentence → Except HornError HornRule
  | .binary .conjunction left right =>
    match bodyOf? left with
    | some more => readChain rule (body ++ more) right
    | none => .error (.nonPositiveBody rule)
  | .binary .implication left right =>
    match bodyOf? left, right.asSymbol with
    | some more, some head => .ok ⟨body ++ more, head⟩
    | some _, none => .error (.nonAtomicHead rule)
    | none, _ => .error (.nonPositiveBody rule)
  | _ => .error (.notImplication rule)

/-- The rule that a compound sentence states. -/
def ofSentence (s : Sentence) : Except HornError HornRule :=
  readChain s [] s

/-- The written form, without brackets. -/
def text (r : HornRule) : String :=
  " & ".intercalate (r.body.map Symbol.name) ++ " => " ++ r.head.name

end HornRule

namespace HornBase

/-- The base without facts and rules. -/
def empty : HornBase :=
  ⟨[], []⟩

/-- Adds what a sentence states, at the end of the facts or of the rules. -/
def add (base : HornBase) (s : Sentence) : Except HornError HornBase :=
  match s with
  | .atomic (.literal ⟨symbol, false⟩) => .ok { base with facts := base.facts ++ [symbol] }
  | .atomic (.literal ⟨_, true⟩) => .error (.negatedFact s)
  | .atomic (.constant _) => .error (.constantFact s)
  | .negation _ => .error (.notImplication s)
  | .binary _ _ _ => do return { base with rules := base.rules ++ [← HornRule.ofSentence s] }

/-- Reads a knowledge base as facts and rules. -/
def ofKnowledgeBase (kb : KnowledgeBase) : Except HornError HornBase :=
  kb.sentences.foldlM add empty

/-- The written form: the facts on one line, and each rule on a line. -/
def text (base : HornBase) : String :=
  "Facts:\n" ++ ", ".intercalate (base.facts.map Symbol.name) ++ "\nRules:\n" ++
    String.join (base.rules.map (·.text ++ "\n"))

end HornBase

/-- The symbol that a query for chaining asks about. -/
def hornQuery (query : Sentence) : Except HornError Symbol :=
  match query.asSymbol with
  | some symbol => .ok symbol
  | none => .error (.nonPositiveQuery query)

/-- The answer to a query by chaining: whether the query was found, and the symbols shown to follow
on the way. -/
structure ChainingReport where
  found : Bool
  entailed : SortedSet Symbol
deriving DecidableEq

end Entailment
