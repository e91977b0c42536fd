import Mathlib.Analysis.Calculus.Deriv.Comp
import Mathlib.Analysis.Calculus.FDeriv.Add
import Mathlib.Analysis.Calculus.Gradient.Basic
import Optima.Proofs.Vector.Euclid

/-!
Gradients of what is computed from a vector. A computation may end in a fault, so it has a gradient
at a vector if it gives results for all vectors nearby and these results, as a function on Euclidean
space, have the gradient there.
-/

namespace Optima

section Gradient

variable {F : Type} [NormedAddCommGroup F] [InnerProductSpace ℝ F] [CompleteSpace F]
  {f g : F → ℝ} {x a b : F}

theorem hasGradientAt_add (hf : HasGradientAt f a x) (hg : HasGradientAt g b x) :
    HasGradientAt (fun z => f z + g z) (a + b) x := by
  rw [hasGradientAt_iff_hasFDerivAt] at hf hg ⊢
  rw [map_add]
  exact hf.add hg

theorem hasGradientAt_comp {s : ℝ → ℝ} {d : ℝ} (hs : HasDerivAt s d (f x))
    (hf : HasGradientAt f a x) : HasGradientAt (fun z => s (f z)) (d • a) x := by
  have hdual : InnerProductSpace.toDual ℝ F (d • a) = d • InnerProductSpace.toDual ℝ F a := by
    rw [map_smulₛₗ]
    rfl
  rw [hasGradientAt_iff_hasFDerivAt] at hf ⊢
  rw [hdual]
  exact hs.comp_hasFDerivAt x hf

/-- A coordinate grows along its own axis. -/
theorem hasGradientAt_coordinate {n : ℕ} (i : Fin n) (x : EuclideanSpace ℝ (Fin n)) :
    HasGradientAt (fun z : EuclideanSpace ℝ (Fin n) => z i) (EuclideanSpace.single i 1) x := by
  rw [hasGradientAt_iff_hasFDerivAt]
  have hdual : InnerProductSpace.toDual ℝ _ (EuclideanSpace.single i 1) =
      (EuclideanSpace.proj i : EuclideanSpace ℝ (Fin n) →L[ℝ] ℝ) := by
    ext z
    rw [InnerProductSpace.toDual_apply_apply, EuclideanSpace.inner_single_left, map_one, one_mul]
    rfl
  rw [hdual]
  exact (EuclideanSpace.proj i : EuclideanSpace ℝ (Fin n) →L[ℝ] ℝ).hasFDerivAt

end Gradient

namespace Vec

def ofEuclid {n : ℕ} (z : EuclideanSpace ℝ (Fin n)) : Vec ℝ := ⟨List.ofFn z⟩

theorem size_ofEuclid {n : ℕ} (z : EuclideanSpace ℝ (Fin n)) : (ofEuclid z).size = n :=
  List.length_ofFn

theorem ofEuclid_toEuclid (x : Vec ℝ) : ofEuclid (x.toEuclid x.size) = x := by
  apply eq_of_toEuclid (size_ofEuclid _) rfl
  ext i
  simp [ofEuclid, toEuclid_apply]

end Vec

/-- The results of a computation, zero where it ends in a fault. -/
noncomputable def along (f : Vec ℝ → Except Fault ℝ) {n : ℕ} (z : EuclideanSpace ℝ (Fin n)) : ℝ :=
  (f (Vec.ofEuclid z)).toOption.getD 0

theorem along_eq {f : Vec ℝ → Except Fault ℝ} {n : ℕ} {z : EuclideanSpace ℝ (Fin n)} {v : ℝ}
    (h : f (Vec.ofEuclid z) = .ok v) : along f z = v := by
  rw [along, h]
  rfl

/-- Near a vector the computation gives results, and they have the gradient
there. -/
structure HasSlope (f : Vec ℝ → Except Fault ℝ) (x slope : Vec ℝ) : Prop where
  size : slope.size = x.size
  results : ∀ᶠ z in nhds (x.toEuclid x.size), ∃ v, f (Vec.ofEuclid z) = .ok v
  gradient : HasGradientAt (along f) (slope.toEuclid x.size) (x.toEuclid x.size)

namespace HasSlope

variable {f : Vec ℝ → Except Fault ℝ} {x slope : Vec ℝ}

theorem ok_along (h : HasSlope f x slope) :
    ∀ᶠ z in nhds (x.toEuclid x.size), f (Vec.ofEuclid z) = .ok (along f z) := by
  filter_upwards [h.results] with z hz
  obtain ⟨v, hv⟩ := hz
  rw [along_eq hv, hv]

theorem value (h : HasSlope f x slope) : f x = .ok (along f (x.toEuclid x.size)) := by
  have hnear := h.ok_along.self_of_nhds
  rwa [Vec.ofEuclid_toEuclid] at hnear

/-- A computation that is given by a formula has the gradient of the formula. -/
theorem of_formula {n : ℕ} {s : EuclideanSpace ℝ (Fin n) → ℝ} (hx : x.size = n)
    (hslope : slope.size = n) (hresults : ∀ z, f (Vec.ofEuclid z) = .ok (s z))
    (hgradient : HasGradientAt s (slope.toEuclid n) (x.toEuclid n)) : HasSlope f x slope := by
  subst hx
  have halong : along f = s := funext fun z => along_eq (hresults z)
  refine ⟨hslope, Filter.Eventually.of_forall fun z => ⟨s z, hresults z⟩, ?_⟩
  rw [halong]
  exact hgradient

end HasSlope

end Optima
