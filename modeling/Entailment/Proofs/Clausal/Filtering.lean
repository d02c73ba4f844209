import Entailment.ClauseBase
import Entailment.Proofs.Reading.Writing
import Entailment.Proofs.Valuation

/-!
# Filtering clauses

Filtering leaves out tautologies, and of equal clauses all but the first. Clauses can be told apart
by their written forms (`Clause.text_injective`): without blanks such a form is a sentence of the
grammar, and reading it gives back the literals. So it comes to the same to filter with the set of
the written forms seen so far.

What is left of a list is filtered to itself, and in front of more clauses it leaves out the same
ones of them as the whole list does. So filtering a part beforehand makes no difference.
-/

namespace Entailment

open Text

/-! ## Written forms of clauses -/

/-- The disjunction of literals that a clause is written as. -/
def Sentence.ofLiterals : List Literal → Sentence
  | [] => .constant false
  | [l] => .literal l
  | l :: k :: ls => .binary .disjunction (.literal l) (ofLiterals (k :: ls))

theorem Sentence.ofLiterals_injective : Function.Injective ofLiterals := by
  intro ls
  fun_induction ofLiterals ls with
  | case1 =>
    intro ks same
    fun_cases ofLiterals ks with
    | case1 => rfl
    | case2 => cases same
    | case3 => cases same
  | case2 l =>
    intro ks same
    fun_cases ofLiterals ks with
    | case1 => cases same
    | case2 => cases same; rfl
    | case3 => cases same
  | case3 l k ls ih =>
    intro ks same
    fun_cases ofLiterals ks with
    | case1 => cases same
    | case2 => cases same
    | case3 l' k' ls' =>
      rw [ofLiterals, binary.injEq] at same
      obtain ⟨-, first, rest⟩ := same
      cases first
      rw [ih rest]

namespace Clause

theorem derives_ofLiterals {ls : List Literal} (h : ls ≠ []) :
    Derives .sentence (withoutBlanks (" || ".intercalate (ls.map Literal.text)).toList)
      (.ofLiterals ls) := by
  have sep : withoutBlanks " || ".toList = Connective.disjunction.token.toList := by decide
  have literal (l : Literal) : Derives .operand (withoutBlanks l.text.toList) (.literal l) :=
    Sentence.derives_text (.literal l)
  rw [String.toList_intercalate, withoutBlanks_intercalate, sep, List.map_map, List.map_map]
  fun_induction Sentence.ofLiterals ls with
  | case1 => exact absurd rfl h
  | case2 l =>
    rw [List.map_singleton, List.intercalate_singleton]
    exact .single (literal l)
  | case3 l k ls ih =>
    rw [List.map_cons, List.map_cons, List.intercalate_cons_cons]
    exact .joined .disjunction (literal l) (ih (List.cons_ne_nil k ls))

/-- Without blanks the written form of a clause is derivable as the disjunction of its literals. -/
theorem derives_text (c : Clause) :
    Derives .sentence (withoutBlanks c.text.toList) (.ofLiterals c.literals) := by
  rw [text, isEmpty]
  split
  · next none =>
    rw [List.isEmpty_iff.1 none, Sentence.withoutBlanks_constant]
    exact .single (.constant false)
  · next some => exact derives_ofLiterals (mt List.isEmpty_iff.2 some)

/-- Different clauses are written differently. -/
theorem text_injective : Function.Injective text := by
  intro c d same
  have read := c.derives_text.tree
  rw [same, d.derives_text.tree, Except.ok.injEq] at read
  exact ext (Sentence.ofLiterals_injective read.symm)

end Clause

/-! ## Filtering with a set of written forms -/

variable {xs ys cs : List Clause} {c : Clause}

theorem filterClauses_cons_of_isTautology (h : c.isTautology = true) :
    filterClauses (c :: cs) = filterClauses cs := by
  rw [filterClauses, List.filter_cons_of_neg (by simp [h]), filterClauses]

/-- The first clause is kept, and it is left out of the rest. -/
theorem filterClauses_cons (h : c.isTautology = false) :
    filterClauses (c :: cs) = c :: filterClauses (cs.filter (· ≠ c)) := by
  rw [filterClauses, List.filter_cons_of_pos (by simp [h]), List.eraseDups_cons, filterClauses,
    List.filter_filter, List.filter_filter]
  congr 2
  exact List.filter_congr fun d _ => by by_cases hd : d = c <;> simp [hd]

/-- Leaves out the tautologies, and the clauses whose written form has been seen. -/
def filterUnseen (seen : SortedSet String) : List Clause → List Clause
  | [] => []
  | c :: cs =>
    if c.isTautology then filterUnseen seen cs
    else if c.text ∈ seen then filterUnseen seen cs
    else c :: filterUnseen (seen.insert c.text) cs

/-- The written forms seen stand for the clauses that they are the forms of. -/
theorem filterUnseen_eq {seen : SortedSet String} {before : List Clause}
    (h : ∀ text, text ∈ seen ↔ ∃ c ∈ before, c.text = text) (cs : List Clause) :
    filterUnseen seen cs = filterClauses (cs.filter (· ∉ before)) := by
  induction cs generalizing seen before with
  | nil => rfl
  | cons c cs ih =>
    have known : c.text ∈ seen ↔ c ∈ before := by
      rw [h]
      constructor
      · rintro ⟨d, hd, same⟩
        exact Clause.text_injective same ▸ hd
      · exact fun hc => ⟨c, hc, rfl⟩
    rw [filterUnseen]
    by_cases hc : c ∈ before
    · rw [if_pos (known.2 hc), ite_self, ih h, List.filter_cons_of_neg (by simpa using hc)]
    rw [if_neg (mt known.1 hc), List.filter_cons_of_pos (by simpa using hc)]
    cases ht : c.isTautology with
    | true => rw [if_pos rfl, ih h, filterClauses_cons_of_isTautology ht]
    | false =>
      have more : ∀ text, text ∈ seen.insert c.text ↔ ∃ d ∈ c :: before, d.text = text := by
        intro text
        simp [h, eq_comm]
      have later : cs.filter (· ∉ c :: before) = (cs.filter (· ∉ before)).filter (· ≠ c) := by
        rw [List.filter_filter]
        exact List.filter_congr fun d _ => by simp
      rw [if_neg Bool.false_ne_true, ih more, filterClauses_cons ht, later]

theorem filterUnseen_empty (cs : List Clause) : filterUnseen ∅ cs = filterClauses cs := by
  have none : ∀ text, text ∈ (∅ : SortedSet String) ↔ ∃ c ∈ ([] : List Clause), c.text = text := by
    simp
  have all : cs.filter (· ∉ ([] : List Clause)) = cs := List.filter_eq_self.2 (by simp)
  rw [filterUnseen_eq none, all]

/-! ## What filtering leaves -/

/-- Nothing is left out of different clauses without a tautology. -/
theorem filterClauses_eq_self (h : ∀ c ∈ cs, c.isTautology = false) (distinct : cs.Nodup) :
    filterClauses cs = cs := by
  have all : cs.filter (!·.isTautology) = cs := List.filter_eq_self.2 fun c hc => by simp [h c hc]
  rw [filterClauses, all, eraseDups_of_nodup distinct]

theorem filterClauses_filterClauses (xs : List Clause) :
    filterClauses (filterClauses xs) = filterClauses xs :=
  filterClauses_eq_self (fun _ hc => (mem_filterClauses.1 hc).2) (nodup_eraseDups _)

/-- Which clauses are left out does not hang on tautologies. -/
theorem filterClauses_filter_congr {p q : Clause → Bool}
    (h : ∀ c, c.isTautology = false → p c = q c) (cs : List Clause) :
    filterClauses (cs.filter p) = filterClauses (cs.filter q) := by
  rw [filterClauses, filterClauses, List.filter_filter, List.filter_filter]
  congr 1
  refine List.filter_congr fun c _ => ?_
  cases ht : c.isTautology with
  | true => rfl
  | false => rw [h c ht]

/-- Behind other clauses, the ones among them are left out. -/
theorem filterClauses_append (xs ys : List Clause) :
    filterClauses (xs ++ ys) = filterClauses xs ++ filterClauses (ys.filter (· ∉ xs)) := by
  rw [filterClauses, List.filter_append, List.eraseDups_append, filterClauses, filterClauses,
    List.removeAll, List.filter_filter, List.filter_filter]
  congr 2
  refine List.filter_congr fun c _ => ?_
  cases ht : c.isTautology <;> simp [ht]

/-- A list in front of others may be filtered beforehand. -/
theorem filterClauses_filterClauses_append (xs ys : List Clause) :
    filterClauses (filterClauses xs ++ ys) = filterClauses (xs ++ ys) := by
  have alike : ∀ c : Clause, c.isTautology = false →
      decide (c ∉ filterClauses xs) = decide (c ∉ xs) := by
    intro c hc
    simp [mem_filterClauses, hc]
  rw [filterClauses_append, filterClauses_append, filterClauses_filterClauses,
    filterClauses_filter_congr alike]

theorem isTautology_eq_false_iff :
    c.isTautology = false ↔ ∀ l ∈ c.literals, l.negate ∉ c.literals := by
  rw [← Bool.not_eq_true, Clause.isTautology_iff]
  simp

/-- On a model that values every symbol, clauses are true if they are under its valuation. -/
theorem forall_evaluate_iff_satisfies {m : Model} (h : ∀ c ∈ cs, m.Values c.symbols) :
    (∀ c ∈ cs, c.evaluate m = .ok true) ↔ Satisfies m.valuation cs :=
  forall₂_congr fun c hc => by rw [Clause.evaluate_of_values (h c hc), Except.ok.injEq]

/-- Filtering a part of a list beforehand makes no difference, and it comes to the same to filter by
the written forms seen. What is left of a list keeps its order and has no clause with a literal and
its complement and no two clauses with the same literals in the same order. Every other clause of
the list is in it, so that it is true on the same models. -/
theorem filterClauses_leaves (xs ys : List Clause) :
    filterUnseen ∅ xs = filterClauses xs ∧
    filterClauses (filterClauses xs ++ ys) = filterClauses (xs ++ ys) ∧
    filterClauses (filterClauses xs) = filterClauses xs ∧
    (∀ base : ClauseBase, base.clauses = filterClauses xs →
      base.extended ys = filterClauses (xs ++ ys)) ∧
    (filterClauses xs).Sublist xs ∧
    (∀ c ∈ filterClauses xs, ∀ l ∈ c.literals, l.negate ∉ c.literals) ∧
    (filterClauses xs).Pairwise (fun c d => c.literals ≠ d.literals) ∧
    (∀ c ∈ xs, (∀ l ∈ c.literals, l.negate ∉ c.literals) → c ∈ filterClauses xs) ∧
    ∀ m : Model, (∀ c ∈ xs, m.Values c.symbols) →
      ((∀ c ∈ filterClauses xs, c.evaluate m = .ok true) ↔ ∀ c ∈ xs, c.evaluate m = .ok true) := by
  have sublist : (filterClauses xs).Sublist xs :=
    (eraseDups_sublist _).trans List.filter_sublist
  refine ⟨filterUnseen_empty xs, filterClauses_filterClauses_append xs ys,
    filterClauses_filterClauses xs, ?_, sublist, ?_, ?_, ?_, ?_⟩
  · intro base same
    rw [ClauseBase.extended, same, filterClauses_filterClauses_append]
  · intro c hc
    exact isTautology_eq_false_iff.1 (mem_filterClauses.1 hc).2
  · exact (nodup_eraseDups _).imp fun different same => different (Clause.ext same)
  · intro c hc other
    exact mem_filterClauses.2 ⟨hc, isTautology_eq_false_iff.2 other⟩
  · intro m values
    have left : ∀ c ∈ filterClauses xs, m.Values c.symbols :=
      fun c hc => values c (mem_filterClauses.1 hc).1
    rw [forall_evaluate_iff_satisfies left, forall_evaluate_iff_satisfies values,
      satisfies_filterClauses]

end Entailment
