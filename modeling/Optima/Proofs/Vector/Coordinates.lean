import Optima.Difference
import Optima.Proofs.Triangular.Factor

/-!
Vectors given by their coordinates. Every vector of dimension `n` is one, and what is computed from
vectors of one dimension is computed coordinate by coordinate.
-/

namespace Optima.Vec

open Matrix

variable {n : ℕ}

section

variable {α : Type}

def ofFn (x : Fin n → α) : Vec α := ⟨List.ofFn x⟩

@[simp] theorem size_ofFn (x : Fin n → α) : (ofFn x).size = n := List.length_ofFn

theorem get_ofFn (x : Fin n → α) (i : Fin n) : (ofFn x).get (i : ℕ) = .ok (x i) := by
  rw [get_natCast_eq_ok, ofFn, List.getElem?_ofFn, dif_pos i.isLt]

theorem set_ofFn (x : Fin n → α) (i : Fin n) (a : α) :
    (ofFn x).set i a = ofFn (Function.update x i a) := by
  apply congrArg mk
  apply List.ext_getElem
  · simp [ofFn]
  · intro j _ hj
    rw [List.length_ofFn] at hj
    simp only [ofFn, List.getElem_set, List.getElem_ofFn, Function.update_apply, Fin.ext_iff]
    simp only [eq_comm]

theorem zipWith_ofFn {β γ : Type} (f : α → β → γ) (x : Fin n → α) (y : Fin n → β) :
    List.zipWith f (List.ofFn x) (List.ofFn y) = List.ofFn fun i => f (x i) (y i) := by
  refine List.ext_getElem (by simp) fun i _ _ => ?_
  simp

end

theorem neg_ofFn (x : Fin n → ℝ) : (ofFn x).neg = ofFn (-x) := by
  rw [neg, ofFn, List.map_ofFn]
  rfl

theorem dot_ofFn (x y : Fin n → ℝ) : (ofFn x).dot (ofFn y) = .ok (x ⬝ᵥ y) := by
  rw [dot, if_pos (by simp), ofFn, ofFn, Triangular.dot_ofFn_ofFn]

theorem sum_ofFn (x : Fin n → ℝ) : (ofFn x).sum = ∑ i, x i := by
  rw [sum, Exact.total_eq, ofFn, List.sum_ofFn]

theorem gross_ofFn (x : Fin n → ℝ) : (ofFn x).gross = ∑ i, |x i| := by
  rw [gross, Exact.total_eq, ofFn, List.map_ofFn, List.sum_ofFn]
  rfl

theorem replicate_eq_ofFn (a : ℝ) : (⟨List.replicate n a⟩ : Vec ℝ) = ofFn fun _ : Fin n => a := by
  rw [ofFn, List.ofFn_const]

theorem basis_eq_ofFn (i : Fin n) : (basis n (i : ℕ) : Except Fault (Vec ℝ)) =
    .ok (ofFn (Pi.single i 1)) := by
  have hplace : (0 ≤ ((i : ℕ) : ℤ) && ((i : ℕ) : ℤ) < n) = true := by simp
  have hset := set_ofFn (fun _ : Fin n => (0 : ℝ)) i 1
  rw [← replicate_eq_ofFn] at hset
  rw [basis, if_pos hplace]
  exact congrArg Except.ok hset

end Optima.Vec
