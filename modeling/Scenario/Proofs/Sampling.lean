import Mathlib.Algebra.Order.BigOperators.Group.List
import Mathlib.Algebra.Order.Field.Basic
import Mathlib.Algebra.Order.Ring.Rat
import Mathlib.Data.Set.Lattice
import Mathlib.Order.CompletePartialOrder
import Mathlib.Tactic.Linarith
import Mathlib.Tactic.NormNum
import Scenario.Proofs.Sums

/-!
Weighted choices. A draw falls on the weight whose slice of the total it lies in. In exact
arithmetic the slices are half-open intervals that make up the unit interval, each as long as its
share.
-/

namespace Scenario

section Exact

variable {α : Type} [Field α] [LinearOrder α] {ws : List α} {target total roll : α} {i : Nat}

/-- The draws that fall on the `i`-th of some weights. -/
def slice (ws : List α) (i : Nat) : Set α :=
  Set.Ico ((ws.take i).sum / ws.sum) ((ws.take (i + 1)).sum / ws.sum)

theorem slice_eq {w : α} (hw : ws[i]? = some w) :
    slice ws i =
      Set.Ico ((ws.take i).sum / ws.sum) ((ws.take i).sum / ws.sum + w / ws.sum) := by
  obtain ⟨hi, rfl⟩ := List.getElem?_eq_some_iff.1 hw
  rw [slice, List.sum_take_succ ws i hi, add_div]

theorem exists_firstPast? (htotal : total ≤ target) (htarget : target < total + ws.sum) :
    ∃ i, firstPast? target total ws = some i := by
  induction ws generalizing total with
  | nil =>
    rw [List.sum_nil, add_zero] at htarget
    exact absurd htotal (not_le.2 htarget)
  | cons w ws ih =>
    simp only [firstPast?]
    split
    · exact ⟨0, rfl⟩
    · rename_i hpast
      rw [List.sum_cons, ← add_assoc] at htarget
      obtain ⟨i, hi⟩ := ih (not_lt.1 hpast) htarget
      exact ⟨i + 1, by rw [hi, Option.map_some]⟩

variable [IsStrictOrderedRing α]

theorem sum_take_nonneg (h : ∀ w ∈ ws, 0 ≤ w) (i : Nat) : 0 ≤ (ws.take i).sum :=
  List.sum_nonneg fun w hw => h w (List.mem_of_mem_take hw)

theorem firstPast?_eq_some (h : ∀ w ∈ ws, 0 ≤ w) (htotal : total ≤ target) :
    firstPast? target total ws = some i ↔
      total + (ws.take i).sum ≤ target ∧ target < total + (ws.take (i + 1)).sum := by
  induction ws generalizing total i with
  | nil =>
    simp only [firstPast?, List.take_nil, List.sum_nil, reduceCtorEq, false_iff, not_and, not_lt]
    exact id
  | cons w ws ih =>
    obtain ⟨hw, hws⟩ := List.forall_mem_cons.1 h
    simp only [firstPast?]
    by_cases hpast : target < total + w
    · rw [if_pos hpast]
      cases i with
      | zero => simpa [htotal] using hpast
      | succ i =>
        have hnonneg := sum_take_nonneg hws i
        simp only [List.take_succ_cons, List.sum_cons]
        constructor
        · rintro ⟨⟩
        · rintro ⟨hle, -⟩
          linarith
    · rw [if_neg hpast]
      cases i with
      | zero => simp [hpast]
      | succ i =>
        rw [List.take_succ_cons, List.take_succ_cons, List.sum_cons, List.sum_cons, ← add_assoc,
          ← add_assoc, ← ih hws (not_lt.1 hpast)]
        simp

theorem mem_slice (hpos : 0 < ws.sum) : roll ∈ slice ws i ↔
    (ws.take i).sum ≤ roll * ws.sum ∧ roll * ws.sum < (ws.take (i + 1)).sum := by
  rw [slice, Set.mem_Ico, div_le_iff₀ hpos, lt_div_iff₀ hpos]

/-- The draw always falls somewhere, so that it need not go to the last share. -/
theorem firstPast?_share (hpos : 0 < ws.sum) (hroll : roll ∈ Set.Ico 0 1) :
    firstPast? (roll * ws.sum) 0 ws = some (share ws ws.sum roll) := by
  have htarget : roll * ws.sum < 0 + ws.sum := by
    rw [zero_add]
    exact mul_lt_of_lt_one_left hpos hroll.2
  obtain ⟨i, hi⟩ := exists_firstPast? (mul_nonneg hroll.1 hpos.le) htarget
  rw [share, hi, Option.getD_some]

theorem share_eq_iff (h : ∀ w ∈ ws, 0 ≤ w) (hpos : 0 < ws.sum) (hroll : roll ∈ Set.Ico 0 1) :
    share ws ws.sum roll = i ↔ roll ∈ slice ws i := by
  have hplace := firstPast?_eq_some (i := i) h (mul_nonneg hroll.1 hpos.le)
  rw [firstPast?_share hpos hroll, zero_add, zero_add, Option.some.injEq] at hplace
  rw [hplace, mem_slice hpos]

theorem sum_take_le (h : ∀ w ∈ ws, 0 ≤ w) (i : Nat) : (ws.take i).sum ≤ ws.sum := by
  have hrest : 0 ≤ (ws.drop i).sum := List.sum_nonneg fun w hw => h w (List.mem_of_mem_drop hw)
  rw [← List.sum_take_add_sum_drop ws i]
  exact le_add_of_nonneg_right hrest

theorem slice_subset (h : ∀ w ∈ ws, 0 ≤ w) (hpos : 0 < ws.sum) (i : Nat) :
    slice ws i ⊆ Set.Ico 0 1 := by
  intro roll hroll
  rw [mem_slice hpos] at hroll
  have hlow := (sum_take_nonneg h i).trans hroll.1
  have hhigh := hroll.2.trans_le (sum_take_le h (i + 1))
  exact ⟨nonneg_of_mul_nonneg_left hlow hpos, (mul_lt_iff_lt_one_left hpos).1 hhigh⟩

theorem exists_share (h : ∀ w ∈ ws, 0 ≤ w) (hpos : 0 < ws.sum) (hroll : roll ∈ Set.Ico 0 1) :
    ∃ w, ws[share ws ws.sum roll]? = some w ∧ 0 < w := by
  have hmem := (share_eq_iff h hpos hroll).1 rfl
  rw [mem_slice hpos] at hmem
  generalize share ws ws.sum roll = i at hmem
  have hlt := hmem.1.trans_lt hmem.2
  cases hw : ws[i]? with
  | none =>
    have hlength := List.getElem?_eq_none_iff.1 hw
    rw [List.take_of_length_le hlength, List.take_of_length_le (hlength.trans i.le_succ)] at hlt
    exact absurd hlt (lt_irrefl _)
  | some w =>
    obtain ⟨hi, rfl⟩ := List.getElem?_eq_some_iff.1 hw
    rw [List.sum_take_succ ws i hi] at hlt
    exact ⟨_, rfl, pos_of_lt_add_right hlt⟩

theorem slices_disjoint (h : ∀ w ∈ ws, 0 ≤ w) (hpos : 0 < ws.sum) :
    Pairwise (Function.onFun Disjoint (slice ws)) := by
  intro i j hij
  apply Set.disjoint_left.2
  intro roll hi hj
  have hroll := slice_subset h hpos i hi
  exact hij (((share_eq_iff h hpos hroll).2 hi).symm.trans ((share_eq_iff h hpos hroll).2 hj))

theorem iUnion_slice (h : ∀ w ∈ ws, 0 ≤ w) (hpos : 0 < ws.sum) :
    ⋃ i, slice ws i = Set.Ico 0 1 := by
  apply Set.Subset.antisymm
  · exact Set.iUnion_subset (slice_subset h hpos)
  · intro roll hroll
    exact Set.mem_iUnion.2 ⟨_, (share_eq_iff h hpos hroll).1 rfl⟩

end Exact

/-! ### Weights that are doubles -/

section Doubles

variable {weights : List Float} {source : RandomSource}

theorem choose_of_bad (h : ∃ w ∈ weights, w.isFinite = false ∨ w < 0.0) :
    ∃ w ∈ weights, (w.isFinite = false ∨ w < 0.0) ∧
      choose weights source = (.error (.invalidWeights (.weight w)), source) := by
  cases hfind : weights.find? fun w => !w.isFinite || w < 0.0 with
  | none =>
    obtain ⟨w, hw, hbad⟩ := h
    exact absurd hbad (by simpa using List.find?_eq_none.1 hfind w hw)
  | some w =>
    have hbad := List.find?_some hfind
    refine ⟨w, List.mem_of_find?_eq_some hfind, by simpa using hbad, ?_⟩
    simp only [choose, hfind]

theorem find?_bad (h : ∀ w ∈ weights, w.isFinite ∧ ¬ w < 0.0) :
    (weights.find? fun w => !w.isFinite || w < 0.0) = none := by
  apply List.find?_eq_none.2
  intro w hw
  simpa using h w hw

theorem choose_of_nothing (h : ∀ w ∈ weights, w.isFinite ∧ ¬ w < 0.0)
    (htotal : ¬ 0.0 < totalWeight weights) : choose weights source =
      (.error (.invalidWeights (.sum (totalWeight weights))), source) := by
  simp only [choose, find?_bad h, if_pos ((totalWeight_le_zero h).2 htotal)]

theorem choose_eq (h : ∀ w ∈ weights, w.isFinite ∧ ¬ w < 0.0)
    (htotal : 0.0 < totalWeight weights) : choose weights source =
      (if 0.0 ≤ source.next.1 ∧ source.next.1 < 1.0 then
        .ok (share weights (totalWeight weights) source.next.1)
      else .error (.randomOutOfRange source.next.1), source.next.2) := by
  have hnot : ¬ totalWeight weights ≤ 0.0 := fun hle => (totalWeight_le_zero h).1 hle htotal
  simp only [choose, find?_bad h, if_neg hnot, draw, Bool.and_eq_true, decide_eq_true_eq]
  split <;> rfl

end Doubles

/-- Weighted choices invert the running totals of the weights. A weight that is negative or not
finite is an error, and so is a total that is not positive (no weight is positive then); neither
costs a draw. Otherwise there is one draw. In exact arithmetic it falls on the one weight whose
addition takes the running total past it, so never on a weight of zero, and the draws that fall on a
weight are an interval as long as its share of the total. -/
theorem choose_inverts_totals (weights : List Float) (source : RandomSource) :
    ((∃ w ∈ weights, w.isFinite = false ∨ w < 0.0) →
      ∃ w ∈ weights, (w.isFinite = false ∨ w < 0.0) ∧
        choose weights source = (.error (.invalidWeights (.weight w)), source)) ∧
    ((∀ w ∈ weights, w.isFinite ∧ ¬ w < 0.0) →
      (0.0 < totalWeight weights ↔ ∃ w ∈ weights, 0.0 < w) ∧
      (¬ 0.0 < totalWeight weights → choose weights source =
        (.error (.invalidWeights (.sum (totalWeight weights))), source)) ∧
      (0.0 < totalWeight weights → choose weights source =
        (if 0.0 ≤ source.next.1 ∧ source.next.1 < 1.0 then
          .ok (share weights (totalWeight weights) source.next.1)
        else .error (.randomOutOfRange source.next.1), source.next.2))) ∧
    ∀ (α : Type) [Field α] [LinearOrder α] [IsStrictOrderedRing α] (ws : List α),
      (∀ w ∈ ws, 0 ≤ w) → 0 < ws.sum →
      (∀ roll ∈ Set.Ico 0 1, ∀ i, share ws ws.sum roll = i ↔
        (ws.take i).sum ≤ roll * ws.sum ∧ roll * ws.sum < (ws.take (i + 1)).sum) ∧
      (∀ roll ∈ Set.Ico 0 1, firstPast? (roll * ws.sum) 0 ws = some (share ws ws.sum roll)) ∧
      (∀ roll ∈ Set.Ico 0 1, ∃ w, ws[share ws ws.sum roll]? = some w ∧ 0 < w) ∧
      (∀ i, { roll ∈ Set.Ico 0 1 | share ws ws.sum roll = i } = slice ws i) ∧
      (∀ i w, ws[i]? = some w → slice ws i =
        Set.Ico ((ws.take i).sum / ws.sum) ((ws.take i).sum / ws.sum + w / ws.sum)) ∧
      Pairwise (Function.onFun Disjoint (slice ws)) ∧ ⋃ i, slice ws i = Set.Ico 0 1 := by
  refine ⟨choose_of_bad, fun h => ⟨totalWeight_pos h, choose_of_nothing h, choose_eq h⟩, ?_⟩
  intro α _ _ _ ws h hpos
  refine ⟨fun roll hroll i => ?_, fun roll => firstPast?_share hpos,
    fun roll => exists_share h hpos, fun i => ?_, fun i w => slice_eq, slices_disjoint h hpos,
    iUnion_slice h hpos⟩
  · rw [share_eq_iff h hpos hroll, mem_slice hpos]
  · ext roll
    constructor
    · rintro ⟨hroll, hi⟩
      exact (share_eq_iff h hpos hroll).1 hi
    · intro hi
      have hroll := slice_subset h hpos i hi
      exact ⟨hroll, (share_eq_iff h hpos hroll).2 hi⟩

theorem choose_inverts_totals_quarter :
    choose [1.0, 1.0, 2.0] (.scripted [0.25] 0) = (.ok 1, .scripted [0.25] 1) ∧
    choose [1.0, 1.0, 2.0] (.scripted [1.0] 0) =
      (.error (.randomOutOfRange 1.0), .scripted [1.0] 1) ∧
    share [(0 : ℚ), 3, 0] [0, 3, 0].sum (1 / 2) = 1 := by
  obtain ⟨-, hdoubles, hexact⟩ := choose_inverts_totals [1.0, 1.0, 2.0] (.scripted [0.25] 0)
  obtain ⟨-, hdoubles', -⟩ := choose_inverts_totals [1.0, 1.0, 2.0] (.scripted [1.0] 0)
  have hfine : ∀ w ∈ [(1.0 : Float), 1.0, 2.0], w.isFinite ∧ ¬ w < 0.0 := by decide
  have htotal : 0.0 < totalWeight [1.0, 1.0, 2.0] := by decide
  refine ⟨?_, ?_, ?_⟩
  · rw [(hdoubles hfine).2.2 htotal]
    rfl
  · rw [(hdoubles' hfine).2.2 htotal]
    rfl
  · obtain ⟨hplace, -⟩ := hexact ℚ [0, 3, 0] (by simp) (by simp)
    have hhalf : (1 / 2 : ℚ) ∈ Set.Ico 0 1 := by constructor <;> norm_num
    exact (hplace (1 / 2) hhalf 1).2 (by norm_num)

end Scenario
