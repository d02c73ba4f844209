import Entailment.TruthTable.Counting

/-!
# What counting lists

Numbers of as many digits are told apart by how many numbers are larger, and the more are larger
the earlier a number is in lexicographic order. So counting up from zero lists all numbers of `n`
digits (`mem_countUp`), in ascending order (`pairwise_countUp`).
-/

namespace Entailment.TruthTable

variable {digits other : List Bool} {counted : List (List Bool)} {n : Nat}

theorem remaining_lt_pow (digits : List Bool) : remaining digits < Nat.pow 2 digits.length := by
  induction digits with
  | nil => exact Nat.one_pos
  | cons digit digits ih =>
    have double : Nat.pow 2 (digits.length + 1) = Nat.pow 2 digits.length * 2 := rfl
    rw [remaining, List.length_cons, double]
    split <;> omega

/-- Lexicographic order is that of the numbers, the smaller one having more larger ones. -/
theorem compareLex_eq (same : digits.length = other.length) :
    List.compareLex compare digits other = compare (remaining other) (remaining digits) := by
  induction digits generalizing other with
  | nil =>
    rw [List.length_eq_zero_iff.1 same.symm]
    rfl
  | cons digit digits ih =>
    cases other with
    | nil => cases same
    | cons digit' other =>
      have same' : digits.length = other.length := Nat.succ.inj same
      have bound := remaining_lt_pow digits
      have bound' := remaining_lt_pow other
      have rest := ih same'
      rw [same'] at bound
      simp only [remaining, same']
      cases digit <;> cases digit'
      case false.false | true.true =>
        -- Equal first digits add the same to both numbers.
        show List.compareLex compare digits other = _
        rw [rest, Nat.compare_eq_ite_lt, Nat.compare_eq_ite_lt]
        simp only [Nat.add_lt_add_iff_left]
      case false.true =>
        show Ordering.lt = _
        rw [eq_comm, Nat.compare_eq_lt]
        simp only [if_true, Bool.false_eq_true, if_false]
        omega
      case true.false =>
        show Ordering.gt = _
        rw [eq_comm, Nat.compare_eq_gt]
        simp only [if_true, Bool.false_eq_true, if_false]
        omega

theorem eq_of_remaining_eq (same : digits.length = other.length)
    (h : remaining digits = remaining other) : digits = other := by
  refine @Std.LawfulEqCmp.eq_of_compare _ (List.compareLex compare) _ _ _ ?_
  rw [compareLex_eq same, h, Nat.compare_eq_eq]

theorem mem_countFrom : other ∈ countFrom counted digits ↔
    other ∈ counted ∨ (other.length = digits.length ∧ remaining other ≤ remaining digits) := by
  fun_induction countFrom counted digits with
  | case1 counted digits last =>
    have zero := remaining_of_next?_eq_none last
    rw [List.mem_cons, or_comm]
    refine or_congr_right ⟨?_, fun h => ?_⟩
    · rintro rfl
      exact ⟨rfl, Nat.le_refl _⟩
    · exact eq_of_remaining_eq h.1 (by omega)
  | case2 counted digits succ found ih =>
    have step := remaining_next? found
    rw [ih, List.mem_cons, length_next? found, or_comm (a := other = digits), or_assoc]
    refine or_congr_right ⟨?_, fun h => ?_⟩
    · rintro (rfl | h)
      · exact ⟨rfl, Nat.le_refl _⟩
      · exact ⟨h.1, by omega⟩
    · by_cases eq : remaining other = remaining digits
      · exact .inl (eq_of_remaining_eq h.1 eq)
      · exact .inr ⟨h.1, by omega⟩

/-- The list begins with the largest number, and later ones are smaller. -/
theorem pairwise_countFrom
    (h : (digits :: counted).Pairwise fun d e => remaining d < remaining e) :
    (countFrom counted digits).Pairwise fun d e => remaining d < remaining e := by
  fun_induction countFrom counted digits with
  | case1 => exact h
  | case2 counted digits succ found ih =>
    have step := remaining_next? found
    refine ih (List.pairwise_cons.2 ⟨fun d hd => ?_, h⟩)
    rcases List.mem_cons.1 hd with rfl | hd
    · omega
    · have := (List.pairwise_cons.1 h).1 d hd
      omega

/-- Counting lists every number of `n` digits. -/
theorem mem_countUp : digits ∈ countUp n ↔ digits.length = n := by
  have all := remaining_replicate_false n
  rw [countUp, List.mem_reverse, mem_countFrom, List.length_replicate]
  simp only [List.not_mem_nil, false_or]
  refine and_iff_left_of_imp fun h => ?_
  have := remaining_lt_pow digits
  rw [h] at this
  omega

/-- Counting lists the numbers in ascending order. -/
theorem pairwise_countUp (n : Nat) :
    (countUp n).Pairwise fun d e => List.compareLex compare d e = .lt := by
  have descending : (countUp n).Pairwise fun d e => remaining e < remaining d :=
    List.pairwise_reverse.2 (pairwise_countFrom (List.pairwise_singleton _ _))
  refine descending.imp_of_mem fun {d e} hd he h => ?_
  have same : d.length = e.length := (mem_countUp.1 hd).trans (mem_countUp.1 he).symm
  rw [compareLex_eq same, Nat.compare_eq_lt]
  exact h

end Entailment.TruthTable
