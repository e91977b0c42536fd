import Mathlib.Analysis.Matrix.PosDef
import Mathlib.Data.Fin.Tuple.Take
import Mathlib.Data.List.GetD
import Optima.Proofs.Triangular.Substitution

/-!
The factorization of positive definite matrices in exact arithmetic. One row after the other extends
the factor of the leading square of the matrix by what forward substitution finds. The pivot that is
left is positive, since it is a value of the quadratic form, so there always is a factor, and its
product with its transpose is the matrix.
-/

namespace Optima.Triangular

open Matrix

def rowsOf {d : ℕ} (A : Matrix (Fin d) (Fin d) ℝ) : List (List ℝ) :=
  List.ofFn fun i => List.ofFn (A i)

/-- A lower triangular matrix with a positive diagonal, whose product with its transpose is the
given matrix. -/
structure Factors (L : Triangular ℝ) {n : ℕ} (A : Matrix (Fin n) (Fin n) ℝ) : Prop where
  staircase : Staircase L.rows
  length : L.rows.length = n
  product : L.toMatrix n * (L.toMatrix n)ᵀ = A

section Rows

variable {rows : List (Row ℝ)} {row : Row ℝ} {i : ℕ}

theorem entries_concat_of_lt (hi : i < rows.length) :
    entries ⟨rows ++ [row]⟩ i = entries ⟨rows⟩ i := by
  simp [entries, List.getElem?_append_left, hi]

theorem entries_concat_length : entries ⟨rows ++ [row]⟩ rows.length = row.toList := by
  simp [entries]

theorem Staircase.length_entries (h : Staircase rows) (hi : i < rows.length) :
    (entries ⟨rows⟩ i).length = i + 1 := by
  induction h with
  | nil => cases hi
  | @snoc rows row _ hlength _ ih =>
      rw [List.length_append, List.length_singleton] at hi
      rcases Nat.lt_succ_iff_lt_or_eq.mp hi with hfront | rfl
      · rw [entries_concat_of_lt hfront]
        exact ih hfront
      · rw [entries_concat_length, Row.toList, List.length_append, hlength, List.length_singleton]

end Rows

/-- The two entries across the diagonal are the same. -/
theorem entry_comm {n : ℕ} {A : Matrix (Fin n) (Fin n) ℝ} (hA : A.PosDef) (i j : Fin n) :
    A i j = A j i :=
  (hA.isHermitian.apply i j).symm.trans (star_trivial _)

/-- The pivot that is left after the coordinates before it are eliminated is positive. -/
theorem pivot_pos {n : ℕ} {A : Matrix (Fin (n + 1)) (Fin (n + 1)) ℝ} (hA : A.PosDef)
    {M : Matrix (Fin n) (Fin n) ℝ} (hM : IsUnit M)
    (hproduct : M * Mᵀ = A.submatrix Fin.castSucc Fin.castSucc) {y : Fin n → ℝ}
    (hy : M *ᵥ y = fun i => A (Fin.last n) i.castSucc) :
    y ⬝ᵥ y < A (Fin.last n) (Fin.last n) := by
  obtain ⟨x, hx⟩ := mulVec_surjective_iff_isUnit.mpr ((isUnit_transpose M).mpr hM) y
  -- The vector whose image under the matrix vanishes everywhere but in the last coordinate.
  let v : Fin (n + 1) → ℝ := Fin.snoc x (-1)
  have hfront (i : Fin n) : v i.castSucc = x i := Fin.snoc_castSucc (α := fun _ => ℝ) (-1) x i
  have hlast : v (Fin.last n) = -1 := Fin.snoc_last (α := fun _ => ℝ) (-1) x
  have hv : v ≠ 0 := by
    intro h
    rw [h] at hlast
    norm_num at hlast
  have himage (i : Fin n) : (A *ᵥ v) i.castSucc = 0 := by
    have hsquare : ∑ j : Fin n, A i.castSucc j.castSucc * x j = (M *ᵥ y) i := by
      rw [← hx, mulVec_mulVec, hproduct]
      rfl
    rw [mulVec, dotProduct, Fin.sum_univ_castSucc, hlast]
    simp only [hfront]
    rw [hsquare, hy, entry_comm hA i.castSucc]
    ring
  have hpivot : (A *ᵥ v) (Fin.last n) = y ⬝ᵥ y - A (Fin.last n) (Fin.last n) := by
    have hrow : ∑ j : Fin n, A (Fin.last n) j.castSucc * x j = y ⬝ᵥ y := by
      calc ∑ j : Fin n, A (Fin.last n) j.castSucc * x j = (M *ᵥ y) ⬝ᵥ x := by rw [hy]; rfl
        _ = x ⬝ᵥ (M *ᵥ y) := dotProduct_comm _ _
        _ = y ⬝ᵥ (Mᵀ *ᵥ x) := (dotProduct_transpose_mulVec M y x).symm
        _ = y ⬝ᵥ y := by rw [hx]
    rw [mulVec, dotProduct, Fin.sum_univ_castSucc, hlast]
    simp only [hfront]
    rw [hrow]
    ring
  have hform := hA.dotProduct_mulVec_pos hv
  rw [star_trivial, dotProduct, Fin.sum_univ_castSucc, hpivot, hlast] at hform
  simp only [himage, mul_zero, Finset.sum_const_zero] at hform
  linarith

section Extension

variable {n : ℕ} {rows : List (Row ℝ)}

theorem toMatrix_concat_castSucc (h : Staircase rows) (hlength : rows.length = n) {row : Row ℝ}
    (i : Fin n) :
    toMatrix ⟨rows ++ [row]⟩ (n + 1) i.castSucc = Fin.snoc (toMatrix ⟨rows⟩ n i) 0 := by
  have hi : i.val < rows.length := hlength.symm ▸ i.isLt
  funext j
  change (entries ⟨rows ++ [row]⟩ i).getD j 0 = _
  rw [entries_concat_of_lt hi]
  cases j using Fin.lastCases with
  | last =>
      rw [Fin.snoc_last]
      refine List.getD_eq_default _ _ ?_
      rw [h.length_entries hi, Fin.val_last]
      exact i.isLt
  | cast j =>
      rw [Fin.snoc_castSucc]
      rfl

theorem toMatrix_concat_last (hlength : rows.length = n) (y : Fin n → ℝ) (r : ℝ) :
    toMatrix ⟨rows ++ [⟨List.ofFn y, r⟩]⟩ (n + 1) (Fin.last n) = Fin.snoc y r := by
  subst hlength
  funext j
  change (entries ⟨rows ++ [_]⟩ rows.length).getD j 0 = _
  rw [entries_concat_length, Row.toList]
  cases j using Fin.lastCases with
  | last =>
      rw [Fin.snoc_last]
      simp
  | cast j =>
      rw [Fin.snoc_castSucc]
      simp

theorem snoc_dotProduct_snoc (x y : Fin n → ℝ) (a b : ℝ) :
    (Fin.snoc x a : Fin (n + 1) → ℝ) ⬝ᵥ (Fin.snoc y b : Fin (n + 1) → ℝ) = x ⬝ᵥ y + a * b := by
  rw [dotProduct, Fin.sum_univ_castSucc]
  simp only [Fin.snoc_castSucc, Fin.snoc_last]
  rfl

theorem dot_ofFn_ofFn (x y : Fin n → ℝ) :
    Scalar.dot (List.ofFn x) (List.ofFn y) = x ⬝ᵥ y := by
  rw [Exact.dot_ofFn, dotProduct]
  refine Finset.sum_congr rfl fun j _ => ?_
  simp

/-- Bordering: the next row solves a system with the factor so far, and its last entry is a root. -/
theorem product_concat {A : Matrix (Fin (n + 1)) (Fin (n + 1)) ℝ} (hA : A.PosDef)
    (h : Factors ⟨rows⟩ (A.submatrix Fin.castSucc Fin.castSucc)) {y : Fin n → ℝ} {r : ℝ}
    (hy : toMatrix ⟨rows⟩ n *ᵥ y = fun i => A (Fin.last n) i.castSucc)
    (hr : y ⬝ᵥ y + r * r = A (Fin.last n) (Fin.last n)) :
    toMatrix ⟨rows ++ [⟨List.ofFn y, r⟩]⟩ (n + 1) *
      (toMatrix ⟨rows ++ [⟨List.ofFn y, r⟩]⟩ (n + 1))ᵀ = A := by
  have hrow (i : Fin n) : toMatrix ⟨rows⟩ n i ⬝ᵥ y = A (Fin.last n) i.castSucc := congrFun hy i
  have hsquare (i j : Fin n) :
      toMatrix ⟨rows⟩ n i ⬝ᵥ toMatrix ⟨rows⟩ n j = A i.castSucc j.castSucc :=
    congrFun (congrFun h.product i) j
  ext i j
  change toMatrix _ (n + 1) i ⬝ᵥ toMatrix _ (n + 1) j = A i j
  cases i using Fin.lastCases with
  | last =>
      cases j using Fin.lastCases with
      | last => rw [toMatrix_concat_last h.length, snoc_dotProduct_snoc, hr]
      | cast j =>
          rw [toMatrix_concat_last h.length, toMatrix_concat_castSucc h.staircase h.length,
            snoc_dotProduct_snoc, dotProduct_comm, hrow, mul_zero, add_zero]
  | cast i =>
      rw [toMatrix_concat_castSucc h.staircase h.length]
      cases j using Fin.lastCases with
      | last =>
          rw [toMatrix_concat_last h.length, snoc_dotProduct_snoc, hrow, zero_mul, add_zero,
            entry_comm hA]
      | cast j =>
          rw [toMatrix_concat_castSucc h.staircase h.length, snoc_dotProduct_snoc, hsquare,
            zero_mul, add_zero]

/-- The next row of a positive definite matrix extends the factor. -/
theorem Factors.extend {A : Matrix (Fin (n + 1)) (Fin (n + 1)) ℝ} (hA : A.PosDef)
    {L : Triangular ℝ} (h : L.Factors (A.submatrix Fin.castSucc Fin.castSucc)) {row : List ℝ}
    (hrow : row.take (n + 1) = List.ofFn (A (Fin.last n))) :
    ∃ L', L.extend? row = some L' ∧ L'.Factors A := by
  obtain ⟨y, hy, hsystem⟩ :=
    h.staircase.solve_ofFn h.length fun i => A (Fin.last n) i.castSucc
  have hsplit : row.take (n + 1) =
      List.ofFn (fun i : Fin n => A (Fin.last n) i.castSucc) ++ [A (Fin.last n) (Fin.last n)] := by
    rw [hrow, List.ofFn_succ', List.concat_eq_append]
  have hsolve : L.solve row = List.ofFn y := by
    have hfront : row.take n = List.ofFn fun i : Fin n => A (Fin.last n) i.castSucc := by
      have hshort : row.take n = (row.take (n + 1)).take n := by simp [List.take_take]
      rw [hshort, hsplit, List.take_left' List.length_ofFn]
    rw [← solve_take, h.length, hfront, hy]
  have hdiagonal : row.getD n 0 = A (Fin.last n) (Fin.last n) := by
    have hplace : row.getD n 0 = (row.take (n + 1)).getD n 0 := by
      simp [List.getD_eq_getElem?_getD]
    rw [hplace, hsplit]
    simp
  have hpivot : 0 < A (Fin.last n) (Fin.last n) - y ⬝ᵥ y :=
    sub_pos.mpr (pivot_pos hA (h.staircase.isUnit_toMatrix h.length) h.product hsystem)
  have hless : Scalar.less 0 (A (Fin.last n) (Fin.last n) - y ⬝ᵥ y) = true :=
    (Exact.less_iff _ _).mpr hpivot
  refine ⟨⟨L.rows ++ [⟨List.ofFn y, √(A (Fin.last n) (Fin.last n) - y ⬝ᵥ y)⟩]⟩, ?_, ?_⟩
  · simp only [extend?, hsolve, h.length, hdiagonal, dot_ofFn_ofFn, hless, if_true]
    rfl
  · refine ⟨h.staircase.snoc ?_ (Real.sqrt_pos.mpr hpivot), ?_, ?_⟩
    · rw [List.length_ofFn, h.length]
    · rw [List.length_append, h.length, List.length_singleton]
    · refine product_concat hA h hsystem ?_
      rw [Real.mul_self_sqrt hpivot.le, add_sub_cancel]

end Extension

def leadingSquare {d : ℕ} (A : Matrix (Fin d) (Fin d) ℝ) {k : ℕ} (hk : k ≤ d) :
    Matrix (Fin k) (Fin k) ℝ :=
  A.submatrix (Fin.castLE hk) (Fin.castLE hk)

theorem exists_factor_leading {d : ℕ} {A : Matrix (Fin d) (Fin d) ℝ} (hA : A.PosDef) {k : ℕ}
    (hk : k ≤ d) :
    ∃ L, factor? ((rowsOf A).take k) = some L ∧ L.Factors (leadingSquare A hk) := by
  -- On how many rows are read; the factor of the leading square carries the argument.
  induction k with
  | zero =>
      refine ⟨⟨[]⟩, rfl, .nil, rfl, ?_⟩
      exact Subsingleton.elim _ _
  | succ k ih =>
      obtain ⟨L, hL, hfactors⟩ := ih (Nat.le_of_succ_le hk)
      have hpos : (leadingSquare A hk).PosDef := hA.submatrix (Fin.castLE_injective hk)
      have hrow : (List.ofFn (A ⟨k, hk⟩)).take (k + 1) =
          List.ofFn (leadingSquare A hk (Fin.last k)) :=
        (Fin.ofFn_take_eq_take_ofFn hk _).symm
      obtain ⟨L', hextend, hL'⟩ := Factors.extend hpos hfactors hrow
      have htake : (rowsOf A).take (k + 1) = (rowsOf A).take k ++ [List.ofFn (A ⟨k, hk⟩)] := by
        have hplace : k < (rowsOf A).length := by simpa [rowsOf] using hk
        rw [← List.take_append_getElem hplace]
        simp [rowsOf]
      refine ⟨L', ?_, hL'⟩
      rw [factor?] at hL ⊢
      rw [htake, List.foldlM_append, hL]
      simpa using hextend

/-- Every positive definite matrix has a factor. -/
theorem exists_factor {d : ℕ} {A : Matrix (Fin d) (Fin d) ℝ} (hA : A.PosDef) :
    ∃ L, factor? (rowsOf A) = some L ∧ L.Factors A := by
  obtain ⟨L, hL, hfactors⟩ := exists_factor_leading hA (le_refl d)
  rw [List.take_of_length_le (by simp [rowsOf])] at hL
  exact ⟨L, hL, hfactors⟩

end Optima.Triangular
