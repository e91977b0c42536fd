import Mathlib.Algebra.BigOperators.Group.List.Basic
import Mathlib.Analysis.SpecialFunctions.Pow.Real
import Optima.Proofs.Scalar.Rank
import Optima.Summation

/-!
Exact arithmetic. The reals are scalars on which nothing is undefined or infinite, so that maxima,
sums and inner products are the ones of mathematics, whatever the order they are computed in.
-/

namespace Optima

noncomputable instance : Scalar ℝ where
  natural n := n
  magnitude x := |x|
  squareRoot := Real.sqrt
  root n x := x ^ (1 / (n : ℝ))
  power x n := x ^ n
  less x y := decide (x < y)
  atMost x y := decide (x ≤ y)
  same x y := decide (x = y)
  isFinite _ := true

namespace Exact

@[simp] theorem less_iff (x y : ℝ) : Scalar.less x y = true ↔ x < y := decide_eq_true_iff

@[simp] theorem atMost_iff (x y : ℝ) : Scalar.atMost x y = true ↔ x ≤ y := decide_eq_true_iff

@[simp] theorem same_iff (x y : ℝ) : Scalar.same x y = true ↔ x = y := decide_eq_true_iff

@[simp] theorem larger_eq (x y : ℝ) : Scalar.larger x y = max x y := by
  unfold Scalar.larger
  simp only [less_iff]
  split
  · next h => exact (max_eq_right h.le).symm
  · next h => exact (max_eq_left (not_lt.mp h)).symm

@[simp] theorem smaller_eq (x y : ℝ) : Scalar.smaller x y = min x y := by
  unfold Scalar.smaller
  simp only [less_iff]
  split
  · next h => exact (min_eq_right h.le).symm
  · next h => exact (min_eq_left (not_lt.mp h)).symm

@[simp] theorem maximum_eq (x y : ℝ) : Scalar.maximum x y = max x y := by
  have hdefined : Scalar.isUndefined x = false := by simp [Scalar.isUndefined]
  unfold Scalar.maximum
  simp only [hdefined, Bool.or_false, less_iff]
  split
  · next h => exact (max_eq_left h.le).symm
  · next h => exact (max_eq_right (not_lt.mp h)).symm

@[simp] theorem squareRoot_eq (x : ℝ) : Scalar.squareRoot x = √x := rfl

@[simp] theorem power_eq (x : ℝ) (n : ℕ) : Scalar.power x n = x ^ n := rfl

@[simp] theorem sum_eq (xs : List ℝ) : Scalar.sum xs = xs.sum := by
  rw [List.sum_eq_foldl]
  rfl

@[simp] theorem dot_eq (xs ys : List ℝ) :
    Scalar.dot xs ys = (List.zipWith (· * ·) xs ys).sum :=
  sum_eq _

/-- Lanes that are filled with full chunks keep the sum of everything. -/
theorem fillLanes_sum {chunks : Nat} {lanes rest : List ℝ}
    (hlanes : lanes.length = Scalar.laneCount) (hrest : Scalar.laneCount * chunks ≤ rest.length) :
    (Scalar.fillLanes chunks lanes rest).1.sum + (Scalar.fillLanes chunks lanes rest).2.sum =
      lanes.sum + rest.sum := by
  induction chunks generalizing lanes rest with
  | zero => rfl
  | succ chunks ih =>
      rw [Nat.mul_succ] at hrest
      have hchunk : (rest.take Scalar.laneCount).length = Scalar.laneCount := by
        rw [List.length_take, min_eq_left]
        omega
      have hadded : (List.zipWith (· + ·) lanes (rest.take Scalar.laneCount)).sum =
          lanes.sum + (rest.take Scalar.laneCount).sum :=
        (List.sum_add_sum_eq_sum_zipWith_of_length_eq _ _ (hlanes.trans hchunk.symm)).symm
      rw [Scalar.fillLanes, ih, hadded, add_assoc, List.sum_take_add_sum_drop]
      · rw [List.length_zipWith, hlanes, hchunk, min_self]
      · rw [List.length_drop]
        omega

theorem joinLanes_eq (lanes : List ℝ) : Scalar.joinLanes lanes = lanes.sum := by
  unfold Scalar.joinLanes
  split
  · simp only [List.sum_cons, List.sum_nil]
    ring
  · exact sum_eq _

theorem foldl_add_eq (start : ℝ) (xs : List ℝ) : xs.foldl (· + ·) start = start + xs.sum := by
  induction xs generalizing start with
  | nil => exact (add_zero start).symm
  | cons x xs ih => rw [List.foldl_cons, ih, List.sum_cons, add_assoc]

/-- In exact arithmetic the order of addition does not matter. -/
theorem laneSum_eq {xs : List ℝ} (h : Scalar.laneCount ≤ xs.length) :
    Scalar.laneSum xs = xs.sum := by
  have hlanes : (xs.take Scalar.laneCount).length = Scalar.laneCount := by
    rw [List.length_take, min_eq_left h]
  have hrest : Scalar.laneCount * (xs.length / Scalar.laneCount - 1) ≤
      (xs.drop Scalar.laneCount).length := by
    rw [List.length_drop, Nat.mul_sub_one]
    exact Nat.sub_le_sub_right (Nat.mul_div_le _ _) _
  unfold Scalar.laneSum
  simp only [foldl_add_eq, joinLanes_eq, fillLanes_sum hlanes hrest, List.sum_take_add_sum_drop]

/-- However it is computed, the total of a list is its sum. -/
@[simp] theorem total_eq (xs : List ℝ) : Scalar.total xs = xs.sum := by
  fun_induction Scalar.total xs with
  | case1 xs =>
      cases xs with
      | nil => rfl
      | cons x xs =>
          rw [List.sum_cons]
          exact foldl_add_eq x xs
  | case2 xs _ _ ihfront ihback => rw [ihfront, ihback, List.sum_take_add_sum_drop]
  | case3 xs hshort => exact laneSum_eq (Nat.le_of_not_lt hshort)

theorem sum_map_sub {β : Type} (f g : β → ℝ) (l : List β) :
    (l.map fun b => f b - g b).sum = (l.map f).sum - (l.map g).sum := by
  rw [eq_sub_iff_add_eq, ← List.sum_map_add]
  simp only [sub_add_cancel]

theorem dot_map {β : Type} (f g : β → ℝ) (l : List β) :
    Scalar.dot (l.map f) (l.map g) = (l.map fun b => f b * g b).sum := by
  rw [dot_eq, List.zipWith_map, List.zipWith_self]

theorem defined (x : ℝ) : Scalar.Defined x := (same_iff x x).mpr rfl

noncomputable instance : Ranked ℝ where
  Rank := ℝ
  order := inferInstance
  rank x := x
  less_iff x y := by simp [defined]
  atMost_iff x y := by simp [defined]
  same_iff x y := by simp [defined]
  zero_defined := defined 0
  magnitude_defined _ := defined _
  zero_le_magnitude {x} _ := abs_nonneg x

end Exact

end Optima
