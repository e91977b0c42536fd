import Mathlib.LinearAlgebra.Matrix.NonsingularInverse
import Optima.Proofs.Scalar.Real
import Optima.Triangular

/-!
Triangular systems in exact arithmetic. With rows that form a staircase and positive numbers on the
diagonal, forward substitution and the product with the triangular matrix undo each other. Read as a
matrix of full rows, a staircase is invertible.
-/

namespace Optima

namespace Exact

theorem dot_append {xs ys : List ℝ} (h : xs.length ≤ ys.length) (zs : List ℝ) :
    Scalar.dot xs (ys ++ zs) = Scalar.dot xs ys := by
  rw [dot_eq, dot_eq]
  induction xs generalizing ys with
  | nil => simp
  | cons x xs ih =>
      cases ys with
      | nil => cases h
      | cons y ys =>
          rw [List.cons_append, List.zipWith_cons_cons, List.zipWith_cons_cons, List.sum_cons,
            List.sum_cons, ih (Nat.le_of_succ_le_succ h)]

theorem dot_concat {xs ys : List ℝ} (h : xs.length = ys.length) (x y : ℝ) :
    Scalar.dot (xs ++ [x]) (ys ++ [y]) = Scalar.dot xs ys + x * y := by
  rw [dot_eq, dot_eq, List.zipWith_append h, List.sum_append]
  simp

theorem dot_ofFn {n : ℕ} (xs : List ℝ) (y : Fin n → ℝ) :
    Scalar.dot xs (List.ofFn y) = ∑ j : Fin n, xs.getD j 0 * y j := by
  rw [dot_eq]
  induction n generalizing xs with
  | zero => simp
  | succ n ih =>
      cases xs with
      | nil => simp
      | cons x xs =>
          rw [List.ofFn_succ, List.zipWith_cons_cons, List.sum_cons, ih, Fin.sum_univ_succ]
          rfl

end Exact

namespace Triangular

/-- Every row has one entry more than there are rows before it, and the last one is positive. -/
inductive Staircase : List (Row ℝ) → Prop
  | nil : Staircase []
  | snoc {rows : List (Row ℝ)} {row : Row ℝ} (front : Staircase rows)
      (hlength : row.leading.length = rows.length) (hpositive : 0 < row.diagonal) :
      Staircase (rows ++ [row])

section Systems

variable {rows : List (Row ℝ)} {row : Row ℝ}

theorem exists_eq_concat {b : List ℝ} {n : ℕ} (h : b.length = n + 1) :
    ∃ front last, b = front ++ [last] ∧ front.length = n := by
  have hne : b ≠ [] := List.ne_nil_of_length_eq_add_one h
  refine ⟨b.dropLast, b.getLast hne, (List.dropLast_concat_getLast hne).symm, ?_⟩
  rw [List.length_dropLast, h, Nat.add_sub_cancel]

theorem solve_concat {b : List ℝ} (h : b.length = rows.length) (value : ℝ) :
    solve ⟨rows ++ [row]⟩ (b ++ [value]) =
      solve ⟨rows⟩ b ++ [substitute (solve ⟨rows⟩ b) row value] := by
  rw [solve, List.zip_append h.symm, List.foldl_append]
  rfl

/-- Only as many numbers are read as there are rows. -/
theorem solve_take (L : Triangular ℝ) (b : List ℝ) :
    L.solve (b.take L.rows.length) = L.solve b := by
  have hzip : L.rows.zip (b.take L.rows.length) = L.rows.zip b := by
    have hpairs : (L.rows.zip b).length ≤ L.rows.length := by
      rw [List.length_zip]
      exact min_le_left _ _
    calc L.rows.zip (b.take L.rows.length)
        = (L.rows.zip b).take L.rows.length := by rw [List.zip, List.take_zipWith, List.take_length]
      _ = L.rows.zip b := List.take_of_length_le hpairs
  rw [solve, hzip, solve]

theorem Staircase.length_le (h : Staircase rows) : ∀ r ∈ rows, r.toList.length ≤ rows.length := by
  induction h with
  | nil => simp
  | snoc _ hlength _ ih =>
      rw [List.forall_mem_append, List.forall_mem_singleton, List.length_append]
      exact ⟨fun r hr => (ih r hr).trans (Nat.le_add_right _ _), by simp [Row.toList, hlength]⟩

theorem apply_concat (h : Staircase rows) (hlength : row.leading.length = rows.length)
    {y : List ℝ} (hy : y.length = rows.length) (x : ℝ) :
    apply ⟨rows ++ [row]⟩ (y ++ [x]) =
      apply ⟨rows⟩ y ++ [Scalar.dot row.leading y + row.diagonal * x] := by
  have hfront : rows.map (fun r => Scalar.dot r.toList (y ++ [x])) =
      rows.map fun r => Scalar.dot r.toList y := by
    refine List.map_congr_left fun r hr => Exact.dot_append ?_ [x]
    rw [hy]
    exact h.length_le r hr
  rw [apply, List.map_append, hfront, List.map_singleton, Row.toList,
    Exact.dot_concat (hlength.trans hy.symm)]
  rfl

theorem Staircase.length_solve (h : Staircase rows) {b : List ℝ} (hb : b.length = rows.length) :
    (solve ⟨rows⟩ b).length = rows.length := by
  induction h generalizing b with
  | nil => rfl
  | snoc _ _ _ ih =>
      rw [List.length_append, List.length_singleton] at hb
      obtain ⟨b, value, rfl, hfront⟩ := exists_eq_concat hb
      rw [solve_concat hfront, List.length_append, List.length_append, ih hfront,
        List.length_singleton, List.length_singleton]

/-- What forward substitution finds solves the system. -/
theorem Staircase.apply_solve (h : Staircase rows) {b : List ℝ} (hb : b.length = rows.length) :
    apply ⟨rows⟩ (solve ⟨rows⟩ b) = b := by
  induction h generalizing b with
  | nil => exact (List.eq_nil_of_length_eq_zero hb).symm
  | @snoc rows row hrows hlength hpositive ih =>
      rw [List.length_append, List.length_singleton] at hb
      obtain ⟨b, value, rfl, hfront⟩ := exists_eq_concat hb
      have hlast : Scalar.dot row.leading (solve ⟨rows⟩ b) +
          row.diagonal * substitute (solve ⟨rows⟩ b) row value = value := by
        rw [substitute]
        field_simp
        ring
      rw [solve_concat hfront, apply_concat hrows hlength (hrows.length_solve hfront), ih hfront,
        hlast]

/-- Forward substitution finds what the matrix was applied to. -/
theorem Staircase.solve_apply (h : Staircase rows) {y : List ℝ} (hy : y.length = rows.length) :
    solve ⟨rows⟩ (apply ⟨rows⟩ y) = y := by
  induction h generalizing y with
  | nil => exact (List.eq_nil_of_length_eq_zero hy).symm
  | @snoc rows row hrows hlength hpositive ih =>
      rw [List.length_append, List.length_singleton] at hy
      obtain ⟨y, x, rfl, hfront⟩ := exists_eq_concat hy
      have hlast : substitute y row (Scalar.dot row.leading y + row.diagonal * x) = x := by
        rw [substitute]
        field_simp
        ring
      have happly : (apply ⟨rows⟩ y).length = rows.length := List.length_map _
      rw [apply_concat hrows hlength hfront, solve_concat happly, ih hfront, hlast]

end Systems

section Matrices

open Matrix

variable {n : ℕ} {L : Triangular ℝ}

def entries (L : Triangular ℝ) (i : ℕ) : List ℝ := (L.rows.map Row.toList).getD i []

def toMatrix (L : Triangular ℝ) (n : ℕ) : Matrix (Fin n) (Fin n) ℝ :=
  Matrix.of fun i j => (L.entries i).getD j 0

theorem exists_ofFn_eq {l : List ℝ} (h : l.length = n) : ∃ y : Fin n → ℝ, List.ofFn y = l := by
  subst h
  exact ⟨l.get, List.ofFn_get l⟩

theorem apply_ofFn (h : L.rows.length = n) (y : Fin n → ℝ) :
    L.apply (List.ofFn y) = List.ofFn (L.toMatrix n *ᵥ y) := by
  subst h
  refine List.ext_getElem (by simp [apply]) fun i hi _ => ?_
  have hrow : i < L.rows.length := by simpa [apply] using hi
  have hentries : L.entries i = L.rows[i].toList := by
    simp [entries, hrow]
  simp only [apply, List.getElem_map, List.getElem_ofFn, Exact.dot_ofFn, ← hentries]
  rfl

/-- Forward substitution solves the system, row by row. -/
theorem Staircase.solve_ofFn (h : Staircase L.rows) (hlength : L.rows.length = n)
    (b : Fin n → ℝ) :
    ∃ y : Fin n → ℝ, L.solve (List.ofFn b) = List.ofFn y ∧ L.toMatrix n *ᵥ y = b := by
  have hb : (List.ofFn b).length = L.rows.length := List.length_ofFn.trans hlength.symm
  obtain ⟨y, hy⟩ : ∃ y : Fin n → ℝ, List.ofFn y = L.solve (List.ofFn b) := by
    exact exists_ofFn_eq ((h.length_solve hb).trans hlength)
  refine ⟨y, hy.symm, List.ofFn_injective ?_⟩
  rw [← apply_ofFn hlength, hy]
  exact h.apply_solve hb

/-- A staircase is invertible. -/
theorem Staircase.isUnit_toMatrix (h : Staircase L.rows) (hlength : L.rows.length = n) :
    IsUnit (L.toMatrix n) := by
  rw [← mulVec_surjective_iff_isUnit]
  intro b
  obtain ⟨y, -, hy⟩ := h.solve_ofFn hlength b
  exact ⟨y, hy⟩

end Matrices

end Triangular

end Optima
