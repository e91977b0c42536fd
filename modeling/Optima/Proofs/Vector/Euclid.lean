import Mathlib.Algebra.BigOperators.Fin
import Mathlib.Analysis.InnerProductSpace.PiL2
import Mathlib.Data.List.GetD
import Optima.Proofs.Scalar.Real
import Optima.Vec

/-!
Vectors as points of Euclidean space. A vector of dimension `n` and its point have the same length,
and what is computed component by component is computed in the space.
-/

namespace Optima.Vec

/-- The point of a vector; components that it does not have are zero. -/
noncomputable def toEuclid (n : ℕ) (v : Vec ℝ) : EuclideanSpace ℝ (Fin n) :=
  (EuclideanSpace.equiv (Fin n) ℝ).symm fun i => v.toList.getD i 0

@[simp] theorem toEuclid_apply (n : ℕ) (v : Vec ℝ) (i : Fin n) :
    v.toEuclid n i = v.toList.getD i 0 := rfl

theorem norm_eq_norm_toEuclid {n : ℕ} {v : Vec ℝ} (h : v.size = n) :
    v.norm = ‖v.toEuclid n‖ := by
  have hsum : ∑ i, ‖v.toEuclid n i‖ ^ 2 = (v.toList.map fun a => a * a).sum := by
    obtain rfl : v.toList.length = n := h
    rw [← Fin.sum_univ_fun_getElem]
    apply Finset.sum_congr rfl
    intro i _
    rw [toEuclid_apply, List.getD_eq_getElem _ _ i.isLt, Real.norm_eq_abs, sq_abs, sq]
  rw [EuclideanSpace.norm_eq, hsum, Vec.norm, Exact.squareRoot_eq, Exact.dot_eq, List.zipWith_self]

theorem toEuclid_map_mul (n : ℕ) (v : Vec ℝ) (a : ℝ) :
    (⟨v.toList.map fun b => a * b⟩ : Vec ℝ).toEuclid n = a • v.toEuclid n := by
  ext i
  simp only [PiLp.smul_apply, toEuclid_apply, smul_eq_mul, List.getD_eq_getElem?_getD,
    List.getElem?_map]
  cases v.toList[(i : ℕ)]? <;> simp

theorem toEuclid_zipWith (n : ℕ) {v w : Vec ℝ} (h : v.size = w.size) (a : ℝ) :
    (⟨List.zipWith (fun b c => b + a * c) v.toList w.toList⟩ : Vec ℝ).toEuclid n =
      v.toEuclid n + a • w.toEuclid n := by
  ext i
  simp only [PiLp.add_apply, PiLp.smul_apply, toEuclid_apply, smul_eq_mul]
  rcases lt_or_ge (i : ℕ) v.toList.length with hi | hi
  · have hi' : (i : ℕ) < w.toList.length := hi.trans_eq h
    rw [List.getD_eq_getElem _ _ (by simp [hi, hi']), List.getD_eq_getElem _ _ hi,
      List.getD_eq_getElem _ _ hi', List.getElem_zipWith]
  · have hi' : w.toList.length ≤ (i : ℕ) := h.ge.trans hi
    rw [List.getD_eq_default _ _ (by simp [hi]), List.getD_eq_default _ _ hi,
      List.getD_eq_default _ _ hi', mul_zero, add_zero]

/-- Vectors of one dimension that have the same point are the same. -/
theorem eq_of_toEuclid {n : ℕ} {v w : Vec ℝ} (hv : v.size = n) (hw : w.size = n)
    (h : v.toEuclid n = w.toEuclid n) : v = w := by
  obtain ⟨xs⟩ := v
  obtain ⟨ys⟩ := w
  obtain rfl : xs.length = n := hv
  have hlength : xs.length = ys.length := hw.symm
  rw [mk.injEq]
  apply List.ext_getElem hlength
  intro i hi hi'
  have hcomponent : xs.getD i 0 = ys.getD i 0 := congrArg (fun point => point ⟨i, hi⟩) h
  rwa [List.getD_eq_getElem _ _ hi, List.getD_eq_getElem _ _ hi'] at hcomponent

end Optima.Vec
