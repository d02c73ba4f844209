import Entailment.Proofs.Clausal.Clauses

/-!
# The product form

The clauses of a sentence can be read off it in one recursion: the rows of a conjunction are those
of its sides, the rows of a disjunction the products of them, and the rows of the negation are found
by the dual rules (`productForm`). `literals_clauses` says that the passes arrive at the same rows,
in the same order.

All passes before distribution keep the rows of a sentence and those of its negation. Distribution
keeps the rows of the sentence. The rule that lifts a conjunction on the right would list the
products in another order if there were several rows on the left, but it only applies where the pass
has left no conjunction at the top of the left side, and then there is none in it at all
(`isDisjunctionOfAtoms_distributeOnce`).
-/

namespace Entailment

/-- The literal that an atom is, if it is one. -/
def Atom.literal? : Atom → Option Literal
  | literal l => some l
  | constant _ => none

@[simp] theorem Atom.negate_negate (a : Atom) : a.negate.negate = a := by
  cases a <;> simp [negate]

/-- Every row of the first list joined with every row of the second, the first varying slowest. -/
def rowProduct (xs ys : List (List Atom)) : List (List Atom) :=
  xs.flatMap fun x => ys.map fun y => x ++ y

theorem rowProduct_append (xs xs' ys : List (List Atom)) :
    rowProduct (xs ++ xs') ys = rowProduct xs ys ++ rowProduct xs' ys :=
  List.flatMap_append

/-- The products of a single row come in the order of the second list. -/
theorem rowProduct_singleton_append (x : List Atom) (ys ys' : List (List Atom)) :
    rowProduct [x] (ys ++ ys') = rowProduct [x] ys ++ rowProduct [x] ys' := by
  simp [rowProduct]

/-- The literals of a row, each at its first occurrence, unless the row has the constant `True`.
The constant `False` is left out. -/
def rowLiterals? (row : List Atom) : Option (List Literal) :=
  if .constant true ∈ row then none else some (row.filterMap Atom.literal?).eraseDups

namespace Sentence

/-- The rows of a sentence, or of its negation: disjunctions of atoms whose conjunction it is
equivalent to. -/
def productForm (negated : Bool) : Sentence → List (List Atom)
  | atomic a => [[if negated then a.negate else a]]
  | negation operand => operand.productForm (!negated)
  | binary .conjunction left right =>
    if negated then rowProduct (left.productForm true) (right.productForm true)
    else left.productForm false ++ right.productForm false
  | binary .disjunction left right =>
    if negated then left.productForm true ++ right.productForm true
    else rowProduct (left.productForm false) (right.productForm false)
  | binary .implication left right =>
    if negated then left.productForm false ++ right.productForm true
    else rowProduct (left.productForm true) (right.productForm false)
  | binary .biconditional left right =>
    if negated then
      rowProduct (left.productForm false ++ right.productForm true)
        (right.productForm false ++ left.productForm true)
    else
      rowProduct (left.productForm true) (right.productForm false) ++
        rowProduct (right.productForm true) (left.productForm false)

/-- The rows of a biconditional are those of the pair of implications. -/
theorem productForm_biconditional (negated : Bool) (a b : Sentence) :
    (binary .biconditional a b).productForm negated =
      (binary .conjunction (binary .implication a b) (binary .implication b a)).productForm
        negated := by
  cases negated <;> rfl

/-! ## The passes before distribution -/

/-- The same rows, and the same rows of the negations. -/
def SameProducts (s t : Sentence) : Prop :=
  ∀ negated, s.productForm negated = t.productForm negated

theorem sameProducts_binary (c : Connective) {s t s' t' : Sentence} (h : SameProducts s t)
    (h' : SameProducts s' t') : SameProducts (binary c s s') (binary c t t') := by
  intro negated
  cases c <;> simp only [productForm, h true, h false, h' true, h' false]

theorem sameProducts_implication (a b : Sentence) :
    SameProducts (binary .disjunction (negation a) b) (binary .implication a b) := by
  intro negated
  cases negated <;> rfl

theorem sameProducts_negation_negation (a : Sentence) :
    SameProducts a (negation (negation a)) := by
  intro negated
  cases negated <;> rfl

theorem sameProducts_dual {c d : Connective} (h : c.dual? = some d) (a b : Sentence) :
    SameProducts (binary d (negation a) (negation b)) (negation (binary c a b)) := by
  intro negated
  cases c <;> cases h <;> cases negated <;> rfl

theorem sameProducts_negated_atom (a : Atom) :
    SameProducts (atomic a.negate) (negation (atomic a)) := by
  intro negated
  cases negated <;> simp [productForm]

theorem rulesWithin_sameProducts : RulesWithin SameProducts where
  refl := fun _ _ => rfl
  trans := fun h h' negated => (h negated).trans (h' negated)
  negation := fun h negated => h (!negated)
  binary := sameProducts_binary
  ofBiconditional := fun a b negated => (productForm_biconditional negated a b).symm
  ofImplication := sameProducts_implication
  ofDoubleNegation := sameProducts_negation_negation
  ofDual := sameProducts_dual
  ofNegatedAtom := sameProducts_negated_atom

/-! ## Distribution -/

/-- A disjunction of atoms has one row, which lists the atoms. -/
theorem exists_row_of_isDisjunctionOfAtoms {s : Sentence} (h : s.isDisjunctionOfAtoms = true) :
    ∃ row, s.productForm false = [row] ∧ s.partsAt .disjunction = row.map atomic := by
  induction s with
  | atomic a => exact ⟨[a], rfl, rfl⟩
  | negation operand ih => simp [isDisjunctionOfAtoms] at h
  | binary c left right ihl ihr =>
    cases c with
    | disjunction =>
      simp only [isDisjunctionOfAtoms, Bool.and_eq_true] at h
      obtain ⟨x, hx, hxs⟩ := ihl h.1
      obtain ⟨y, hy, hys⟩ := ihr h.2
      refine ⟨x ++ y, ?_, ?_⟩
      · simp [productForm, hx, hy, rowProduct]
      · simp only [partsAt, if_true, hxs, hys, List.map_append]
    | conjunction | implication | biconditional => simp [isDisjunctionOfAtoms] at h

/-- A pass that leaves no conjunction at the top leaves none at all. -/
theorem isDisjunctionOfAtoms_distributeOnce {s : Sentence} (h : s.IsJunctive)
    (hs : ∀ a b, s.distributeOnce ≠ binary .conjunction a b) :
    s.distributeOnce.isDisjunctionOfAtoms = true := by
  fun_induction distributeOnce s with
  | case1 a => rfl
  | case2 => exact h.elim
  | case3 left right ihl ihr =>
    unfold disjoin at hs ⊢
    split at hs
    · exact absurd rfl (hs _ _)
    · exact absurd rfl (hs _ _)
    · next hl hr =>
      simp only [isDisjunctionOfAtoms, ihl h.2.1 hl, ihr h.2.2 hr, Bool.and_self]
  | case4 c left right hc =>
    obtain rfl : c = .conjunction := h.1.resolve_right hc
    exact absurd rfl (hs _ _)

/-- Joining two sentences multiplies their rows, if the left one is a conjunction or has no more
than one row. -/
theorem productForm_disjoin {a b : Sentence}
    (h : (∀ p q, a ≠ binary .conjunction p q) → a.isDisjunctionOfAtoms = true) :
    (disjoin a b).productForm false = rowProduct (a.productForm false) (b.productForm false) := by
  fun_cases disjoin a b with
  | case1 first second => exact (rowProduct_append _ _ _).symm
  | case2 _ first second ha =>
    obtain ⟨row, hrow, -⟩ := exists_row_of_isDisjunctionOfAtoms (h ha)
    simp only [productForm, Bool.false_eq_true, if_false, hrow, rowProduct_singleton_append]
  | case3 => rfl

theorem productForm_distributeOnce {s : Sentence} (h : s.IsJunctive) :
    s.distributeOnce.productForm false = s.productForm false := by
  fun_induction distributeOnce s with
  | case1 a => rfl
  | case2 => exact h.elim
  | case3 left right ihl ihr =>
    rw [productForm_disjoin (isDisjunctionOfAtoms_distributeOnce h.2.1), ihl h.2.1, ihr h.2.2]
    rfl
  | case4 c left right hc ihl ihr =>
    obtain rfl : c = .conjunction := h.1.resolve_right hc
    simp only [productForm, Bool.false_eq_true, if_false, ihl h.2.1, ihr h.2.2]

theorem productForm_distribute {s : Sentence} (h : s.IsJunctive) :
    s.distribute.productForm false = s.productForm false := by
  fun_induction distribute s with
  | case1 | case3 => rfl
  | case2 s _ _ _ ih =>
    rw [ih (isJunctive_distributeOnce h), productForm_distributeOnce h]

theorem productForm_clausalForm (s : Sentence) :
    s.clausalForm.productForm false = s.productForm false := by
  rw [clausalForm, productForm_distribute (isJunctive_absorbed s),
    rulesWithin_sameProducts.absorbed s]

/-! ## Taking a sentence apart -/

/-- Taking a clausal sentence apart gives a clause for each of its rows, or none. -/
theorem flatten_eq_productForm {s : Sentence} (h : s.isClausal = true) :
    s.flatten = (s.productForm false).filterMap fun row => clauseOf? (row.map atomic) := by
  have single {d : Sentence} (hd : d.isDisjunctionOfAtoms = true)
      (hp : d.partsAt .conjunction = [d]) :
      d.flatten = (d.productForm false).filterMap fun row => clauseOf? (row.map atomic) := by
    obtain ⟨row, hrow, hparts⟩ := exists_row_of_isDisjunctionOfAtoms hd
    rw [flatten, hp, hrow]
    simp only [List.filterMap_cons, List.filterMap_nil, hparts]
  induction s with
  | atomic a => exact single h rfl
  | negation operand ih => simp [isClausal, isDisjunctionOfAtoms] at h
  | binary c left right ihl ihr =>
    cases c with
    | conjunction =>
      simp only [isClausal, Bool.and_eq_true] at h
      have ihl := ihl h.1
      have ihr := ihr h.2
      rw [flatten] at ihl ihr
      simp only [flatten, partsAt, if_true, productForm, Bool.false_eq_true, if_false,
        List.filterMap_append, ihl, ihr]
    | disjunction | implication | biconditional => exact single h rfl

end Sentence

/-- A clause lists the literals that it is made from, each at its first occurrence. -/
theorem Clause.literals_ofList (ls : List Literal) : (ofList ls).literals = ls.eraseDups := by
  have run (ls : List Literal) (c : Clause) :
      (ls.foldl push c).literals = c.literals ++ (ls.filter (· ∉ c.literals)).eraseDups := by
    induction ls generalizing c with
    | nil => simp
    | cons l ls ih =>
      rw [List.foldl_cons, ih, push]
      split
      · next hl => simp [hl]
      · next hl =>
        have same : ls.filter (· ∉ c.literals ++ [l]) =
            (ls.filter (· ∉ c.literals)).filter fun k => !k == l := by
          rw [List.filter_filter]
          refine List.filter_congr fun k _ => ?_
          by_cases hk : k = l <;> simp [hk]
        rw [same, List.append_assoc, List.filter_cons_of_pos (by simpa using hl),
          List.eraseDups_cons]
        rfl
  have all : ls.filter (· ∉ empty.literals) = ls := by
    rw [List.filter_eq_self]
    intro l _
    simp [empty]
  rw [ofList, run, all]
  rfl

namespace Sentence

theorem map_literals_clauseOf? (row : List Atom) :
    (clauseOf? (row.map atomic)).map Clause.literals = rowLiterals? row := by
  have hm : constant true ∈ row.map atomic ↔ .constant true ∈ row := by simp
  have hl : (row.map atomic).filterMap asLiteral = row.filterMap Atom.literal? := by
    have same : asLiteral ∘ atomic = Atom.literal? := by
      funext a
      cases a <;> rfl
    rw [List.filterMap_map, same]
  unfold clauseOf? rowLiterals?
  by_cases h : .constant true ∈ row
  · rw [if_pos h, if_pos (hm.2 h)]
    rfl
  · rw [if_neg h, if_neg (mt hm.1 h), Option.map_some, Clause.literals_ofList, hl]

/-- The clauses of a sentence are the rows of its product form, in their order: without the rows
that have the constant `True`, without the constant `False`, and with each literal of a row at its
first occurrence. -/
theorem literals_clauses (s : Sentence) :
    s.clauses.map Clause.literals = (s.productForm false).filterMap rowLiterals? := by
  rw [clauses, flatten_eq_productForm s.isClausal_clausalForm, productForm_clausalForm,
    List.map_filterMap]
  simp only [map_literals_clauseOf?]

end Sentence

end Entailment
