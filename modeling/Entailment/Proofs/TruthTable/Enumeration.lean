import Entailment.Proofs.Queries.ByTable
import Entailment.Proofs.TruthTable.Widening

/-!
# The enumeration as a loop

The assignments to the unknown symbols can be gone through by a loop that keeps one list of digits
and changes it in place: from the last digit on, digits are flipped up to the first that becomes a
one, and the loop is left when there is none. Flipping in this way takes the next number
(`flipUp_reverse`), so the loop visits what counting lists (`loopEnds_after`), and collects the
models that the truth table reports.

The known symbols have the same values on all models visited. So the order of the numbers, whose
first digit belongs to the first of the unknown symbols, is that of the models, wherever the known
symbols stand among the others, and putting the models in order leaves them as they were found.
-/

namespace Entailment.TruthTable

/-! ## Flipping digits -/

/-- Flips the digits of a number, the least significant ones first, up to the first that becomes a
one, and says whether there is such a digit. -/
def flipUp : List Bool → List Bool × Bool
  | [] => ([], false)
  | false :: digits => (true :: digits, true)
  | true :: digits => (false :: (flipUp digits).1, (flipUp digits).2)

theorem flipUp_append (low high : List Bool) :
    flipUp (low ++ high) =
      if (flipUp low).2 then ((flipUp low).1 ++ high, true)
      else ((flipUp low).1 ++ (flipUp high).1, (flipUp high).2) := by
  induction low with
  | nil => rfl
  | cons digit low ih =>
    cases digit with
    | false => rfl
    | true =>
      rw [List.cons_append, flipUp, flipUp, ih]
      split <;> rfl

/-- Flipping takes the next number. If there is none, all digits have been flipped to zero. -/
theorem flipUp_reverse (digits : List Bool) :
    flipUp digits.reverse = match next? digits with
      | some succ => (succ.reverse, true)
      | none => (List.replicate digits.length false, false) := by
  induction digits with
  | nil => rfl
  | cons digit digits ih =>
    rw [List.reverse_cons, flipUp_append, ih, next?]
    cases next? digits with
    | some succ => simp
    | none =>
      -- The carry reaches the first digit.
      cases digit with
      | false => simp [flipUp]
      | true => simp [flipUp, List.replicate_succ']

/-! ## The loop -/

/-- How far the enumeration has come. -/
structure Enumeration where
  /-- The values that the unknown symbols are given next. -/
  digits : List Bool
  /-- There are values to be given. -/
  running : Bool
  /-- The models visited. -/
  visited : List Model
  /-- How many of these are models of the knowledge base. -/
  kbModelCount : Nat
  /-- Those of them on which the query is true, in the order in which they were found. -/
  found : List Model

namespace Enumeration

/-- Before the first turn all digits are zero. -/
def start (n : Nat) : Enumeration :=
  ⟨List.replicate n false, true, [], 0, []⟩

/-- Takes the next digits. -/
def advance (s : Enumeration) : Enumeration :=
  { s with digits := (flipUp s.digits.reverse).1.reverse, running := (flipUp s.digits.reverse).2 }

/-- Tries a model. The query is evaluated on the models of the knowledge base only. -/
def visit (kb : KnowledgeBase) (query : Sentence) (m : Model) (s : Enumeration) :
    Except ModelError Enumeration := do
  let told ← kb.holdsOn m
  let asked ← if told then query.evaluate m else pure false
  return { s with
    visited := s.visited ++ [m]
    kbModelCount := if told then s.kbModelCount + 1 else s.kbModelCount
    found := if asked then s.found ++ [m] else s.found }

/-- One turn of the loop; an evaluation that fails ends it. -/
def turn (kb : KnowledgeBase) (query : Sentence) (s : Enumeration) :
    Except ModelError Enumeration := do
  let s ← s.visit kb query (setAll (knownModel kb query) (unknownSymbols kb query) s.digits)
  return s.advance

/-- The loop takes another turn. -/
def GoesOn : Except ModelError Enumeration → Prop
  | .ok s => s.running = true
  | .error _ => False

/-- The state after some models have been visited. -/
def after (kb : KnowledgeBase) (query : Sentence) (digits : List Bool) (running : Bool)
    (visited : List Model) : Enumeration where
  digits
  running
  visited
  kbModelCount := (visited.filter fun m => kb.sentences.all (·.value m.valuation)).length
  found := (visited.filter fun m => kb.sentences.all (·.value m.valuation)).filter
    fun m => query.value m.valuation

end Enumeration

section
variable {kb : KnowledgeBase} {query : Sentence} {m : Model} {digits : List Bool} {running : Bool}
  {visited : List Model}

open Enumeration

theorem visit_after (h : kb.Coherent) (total : m.TotalOn (vocabulary kb query)) :
    (after kb query digits running visited).visit kb query m =
      .ok (after kb query digits running (visited ++ [m])) := by
  refine bind_eq_ok.2 ⟨_, holdsOn_of_totalOn h total, ?_⟩
  cases told : kb.sentences.all (·.value m.valuation) with
  | false =>
    refine pure_eq_ok.2 ?_
    simp [after, told]
  | true =>
    refine bind_eq_ok.2 ⟨_, evaluate_of_totalOn h total, pure_eq_ok.2 ?_⟩
    cases asked : query.value m.valuation <;> simp [after, told, asked]

theorem turn_after (h : kb.Coherent) (hd : digits.length = (unknownSymbols kb query).length) :
    (after kb query digits running visited).turn kb query =
      .ok (after kb query (flipUp digits.reverse).1.reverse (flipUp digits.reverse).2
        (visited ++ [candidate kb query digits])) := by
  refine bind_eq_ok.2 ⟨_, visit_after h (totalOn_candidate h hd), ?_⟩
  rfl

/-- From any digits on, the loop visits what counting up from them lists. -/
theorem loopEnds_after (h : kb.Coherent) (query : Sentence) (counted : List (List Bool))
    (hd : digits.length = (unknownSymbols kb query).length) :
    LoopEnds GoesOn (· >>= turn kb query)
      (.ok (after kb query digits true (counted.reverse.map (candidate kb query))))
      (.ok (after kb query (List.replicate digits.length false) false
        ((countFrom counted digits).reverse.map (candidate kb query)))) := by
  fun_induction countFrom counted digits with
  | case1 counted digits last =>
    refine .step rfl (?_ : LoopEnds _ _ (turn kb query _) _)
    rw [turn_after h hd, flipUp_reverse, last]
    simp only [List.reverse_replicate, List.reverse_cons, List.map_append]
    exact .stop Bool.false_ne_true
  | case2 counted digits succ found ih =>
    refine .step rfl (?_ : LoopEnds _ _ (turn kb query _) _)
    have rest := ih ((length_next? found).trans hd)
    rw [length_next? found, List.reverse_cons, List.map_append] at rest
    rw [turn_after h hd, flipUp_reverse, found]
    simp only [List.reverse_reverse]
    exact rest

end

/-! ## The order of the visits -/

/-- Models that go through all assignments to the unknown symbols in order. -/
structure Enumerates (kb : KnowledgeBase) (query : Sentence) (visited : List Model) : Prop where
  /-- Every model has all symbols, each with a value. -/
  totalOn : ∀ m ∈ visited, m.TotalOn (allSymbols kb query)
  /-- The known symbols have their values. -/
  keeps : ∀ m ∈ visited, Keeps kb m
  length : visited.length = 2 ^ (unknownSymbols kb query).length
  /-- Each assignment to the unknown symbols is that of the model at one place, and no other. -/
  once : ∀ v : Valuation, ∃! i : Nat, ∃ m, visited[i]? = some m ∧
    ∀ name ∈ unknownSymbols kb query, m.assigned name = some (v name)
  ascending : visited.Pairwise fun m n => compare m n = .lt

/-- A model that is tried makes the assignment that its digits are. -/
theorem forall_assigned_candidate_iff {kb : KnowledgeBase} {query : Sentence} {digits : List Bool}
    (h : kb.Coherent) (hd : digits.length = (unknownSymbols kb query).length) (v : Valuation) :
    (∀ name ∈ unknownSymbols kb query, (candidate kb query digits).assigned name =
      some (v name)) ↔ digits = (unknownSymbols kb query).map v := by
  have values : (unknownSymbols kb query).map (candidate kb query digits).valuation = digits :=
    map_valuation_candidate hd
  constructor
  · intro given
    rw [← values]
    exact List.map_congr_left fun name hn => Model.valuation_of_assigned (given name hn)
  · intro same name hn
    rw [same] at values
    rw [(totalOn_candidate h hd).assigned (mem_unknownSymbols.1 hn).1, same,
      List.map_inj_left.1 values name hn]

theorem existsUnique_candidate {kb : KnowledgeBase} (h : kb.Coherent) (query : Sentence)
    (v : Valuation) : ∃! i : Nat, ∃ m, (candidates kb query)[i]? = some m ∧
      ∀ name ∈ unknownSymbols kb query, m.assigned name = some (v name) := by
  have place (i : Nat) : (∃ m, (candidates kb query)[i]? = some m ∧
      ∀ name ∈ unknownSymbols kb query, m.assigned name = some (v name)) ↔
      (countUp (unknownSymbols kb query).length)[i]? = some ((unknownSymbols kb query).map v) := by
    show (∃ m, ((countUp _).map (candidate kb query))[i]? = some m ∧ _) ↔ _
    rw [List.getElem?_map]
    constructor
    · rintro ⟨m, hm, given⟩
      obtain ⟨digits, hd, rfl⟩ := Option.map_eq_some_iff.1 hm
      have length := mem_countUp.1 (List.mem_of_getElem? hd)
      rw [hd, (forall_assigned_candidate_iff h length v).1 given]
    · intro hd
      have length := mem_countUp.1 (List.mem_of_getElem? hd)
      exact ⟨_, Option.map_eq_some_iff.2 ⟨_, hd, rfl⟩,
        (forall_assigned_candidate_iff h length v).2 rfl⟩
  have counted : (unknownSymbols kb query).map v ∈ countUp (unknownSymbols kb query).length :=
    mem_countUp.2 (List.length_map _)
  obtain ⟨i, hi⟩ := List.mem_iff_getElem?.1 counted
  refine ⟨i, (place i).2 hi, fun j hj => ?_⟩
  have hj := (place j).1 hj
  obtain ⟨inside, -⟩ := List.getElem?_eq_some_iff.1 hj
  exact (List.getElem?_inj inside (nodup_countUp _)).1 (hj.trans hi.symm)

theorem enumerates_candidates {kb : KnowledgeBase} (h : kb.Coherent) (query : Sentence) :
    Enumerates kb query (candidates kb query) where
  totalOn := fun m hm => ((mem_candidates_iff h).1 hm).1
  keeps := fun m hm => ((mem_candidates_iff h).1 hm).2
  length := by
    rw [candidates, List.length_map, length_countUp]
  once := existsUnique_candidate h query
  ascending := pairwise_candidates h query

/-- The loop comes to an end, and has then visited the models that are tried, each assignment to the
unknown symbols once and in ascending order. The models it has found are those that the truth table
reports, and putting them in order leaves them as they were found. -/
theorem enumeration_ascends (texts : List String) (query : Sentence) :
    ∃ final : Enumeration,
      LoopEnds Enumeration.GoesOn (· >>= Enumeration.turn (.told texts) query)
        (.ok (.start (unknownSymbols (.told texts) query).length)) (.ok final) ∧
      final.visited = candidates (.told texts) query ∧
      Enumerates (.told texts) query final.visited ∧
      check (.told texts) query = .ok (.ofModels (allSymbols (.told texts) query).toList
        final.found final.kbModelCount) ∧
      (TableReport.ofModels (allSymbols (.told texts) query).toList
        final.found final.kbModelCount).models = final.found := by
  have h := KnowledgeBase.coherent_told texts
  have sorted := (pairwise_kbModels h query).filter fun m => query.value m.valuation
  have ends := loopEnds_after h query [] (List.length_replicate (a := false))
  exact ⟨_, ends, rfl, enumerates_candidates h query, check_of_coherent h query,
    TableReport.models_ofModels sorted⟩

end Entailment.TruthTable
