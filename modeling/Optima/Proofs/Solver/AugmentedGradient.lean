import Optima.Proofs.Solver.AugmentedValue
import Optima.Proofs.Vector.Euclid

/-!
The analytic gradient of the augmented Lagrangian in exact arithmetic. It is the gradient of the
signed objective and the gradients of the constraints, each weighted by the multiplier that an
update at the same point would give it; the gradients that are passed over have the weight zero.
-/

namespace Optima

/-- The gradient of a constraint as a point of Euclidean space, zero where it
is not known. -/
noncomputable def Constraint.slopeAt (c : Constraint ℝ) (n : ℕ) (x : Vec ℝ) :
    EuclideanSpace ℝ (Fin n) :=
  match Lagrangian.knownGradient c x with
  | .ok g => g.toEuclid n
  | .error _ => 0

theorem Constraint.slopeAt_eq {c : Constraint ℝ} {n : ℕ} {x g : Vec ℝ}
    (h : Lagrangian.knownGradient c x = .ok g) : c.slopeAt n x = g.toEuclid n := by
  simp only [slopeAt, h]

namespace Lagrangian

open Entry

theorem addScaled_toEuclid {n : ℕ} {v w u : Vec ℝ} (hv : v.size = n) (hw : w.size = n) {a : ℝ}
    (h : addScaled v a w = .ok u) :
    u.size = n ∧ u.toEuclid n = v.toEuclid n + a • w.toEuclid n := by
  have hsizes : v.size = w.size := hv.trans hw.symm
  rw [addScaled_eq hsizes] at h
  cases h
  refine ⟨?_, Vec.toEuclid_zipWith n hsizes a⟩
  unfold Vec.size at *
  rw [List.length_zipWith, hv, hw, min_self]

section

variable {penalty : ℝ} {x : Vec ℝ} {n : ℕ} {group : List (Entry ℝ)}

theorem addEqualities_eq (hrelation : ∀ e ∈ group, e.constraint.relation = .equality)
    (hresidual : ∀ e ∈ group, e.constraint.residual x = .ok e.residual)
    (hsize : ∀ e ∈ group, ∀ g, knownGradient e.constraint x = .ok g → g.size = n)
    {v u : Vec ℝ} (hv : v.size = n)
    (h : addEqualities penalty x v (group.map fun e => (e.constraint, e.multiplier)) = .ok u) :
    u.size = n ∧ u.toEuclid n =
      v.toEuclid n + (group.map fun e => shift penalty e • e.constraint.slopeAt n x).sum := by
  induction group generalizing v with
  | nil =>
      cases h
      simpa using hv
  | cons e group ih =>
      simp only [List.forall_mem_cons] at hrelation hresidual hsize
      simp only [List.map_cons, addEqualities, bind_eq_ok] at h
      obtain ⟨r, hr, g, hg, w, hw, h⟩ := h
      rw [hresidual.1] at hr
      cases hr
      obtain ⟨hwsize, hwpoint⟩ := addScaled_toEuclid hv (hsize.1 g hg) hw
      obtain ⟨husize, hupoint⟩ := ih hrelation.2 hresidual.2 hsize.2 hwsize h
      refine ⟨husize, ?_⟩
      rw [hupoint, hwpoint, List.map_cons, List.sum_cons, Constraint.slopeAt_eq hg,
        shift_of_equality hrelation.1, add_assoc]

/-- A shifted multiplier that is not positive is zero, so leaving it out changes nothing. -/
theorem addInequalities_eq (hrelation : ∀ e ∈ group, e.constraint.relation = .inequality)
    (hresidual : ∀ e ∈ group, e.constraint.residual x = .ok e.residual)
    (hsize : ∀ e ∈ group, ∀ g, knownGradient e.constraint x = .ok g → g.size = n)
    {v u : Vec ℝ} (hv : v.size = n)
    (h : addInequalities penalty x v (group.map fun e => (e.constraint, e.multiplier)) = .ok u) :
    u.size = n ∧ u.toEuclid n =
      v.toEuclid n + (group.map fun e => shift penalty e • e.constraint.slopeAt n x).sum := by
  induction group generalizing v with
  | nil =>
      cases h
      simpa using hv
  | cons e group ih =>
      simp only [List.forall_mem_cons] at hrelation hresidual hsize
      simp only [List.map_cons, addInequalities, bind_eq_ok] at h
      obtain ⟨r, hr, h⟩ := h
      rw [hresidual.1] at hr
      cases hr
      have hshift : shift penalty e =
          Scalar.larger 0 (e.multiplier + penalty * e.residual) := by
        rw [shift_inequality hrelation.1, Exact.larger_eq]
      rw [← hshift] at h
      rw [List.map_cons, List.sum_cons]
      split at h
      · simp only [bind_eq_ok] at h
        obtain ⟨g, hg, w, hw, h⟩ := h
        obtain ⟨hwsize, hwpoint⟩ := addScaled_toEuclid hv (hsize.1 g hg) hw
        obtain ⟨husize, hupoint⟩ := ih hrelation.2 hresidual.2 hsize.2 hwsize h
        refine ⟨husize, ?_⟩
        rw [hupoint, hwpoint, Constraint.slopeAt_eq hg, add_assoc]
      · next hweight =>
          -- Without a positive weight the gradient is not even asked for.
          have hzero : shift penalty e = 0 := by
            rw [Exact.less_iff, not_lt] at hweight
            rw [shift_inequality hrelation.1] at hweight ⊢
            exact le_antisymm hweight (le_max_left _ _)
          rw [hzero, zero_smul, zero_add]
          exact ih hrelation.2 hresidual.2 hsize.2 hv h

end

/-- The analytic gradient in the caller's order. -/
theorem Lists.gradient_eq {L : Lagrangian ℝ} {x slope : Vec ℝ} {entries : List (Entry ℝ)} {n : ℕ}
    (h : L.Lists x entries) {gradient : Vec ℝ → Except Fault (Vec ℝ)}
    (hgradient : L.problem.gradient = some gradient) (hanalytic : L.problem.isAnalytic = true)
    (hown : ∀ g, gradient x = .ok g → g.size = n)
    (hsize : ∀ e ∈ entries, ∀ g, knownGradient e.constraint x = .ok g → g.size = n)
    (hslope : L.gradient x = .ok slope) :
    ∃ own, gradient x = .ok own ∧ slope.size = n ∧
      slope.toEuclid n = L.problem.weight • own.toEuclid n +
        (entries.map fun e => shift L.penalty e • e.constraint.slopeAt n x).sum := by
  simp only [Lagrangian.gradient, hgradient, hanalytic, if_true, analyticGradient, bind_eq_ok]
    at hslope
  obtain ⟨own, hg, v, hequalities, hinequalities⟩ := hslope
  have hzip (l : List (Entry ℝ)) : (l.map (·.constraint)).zip (l.map (·.multiplier)) =
      l.map fun e => (e.constraint, e.multiplier) := by
    rw [List.zip_eq_zipWith, List.zipWith_map, List.zipWith_self]
  have hstart : (⟨own.toList.map fun d => L.problem.weight * d⟩ : Vec ℝ).size = n := by
    rw [← hown own hg]
    exact List.length_map _
  rw [h.equalities, h.multipliers, sorted, hzip] at hequalities
  rw [h.inequalities, h.multipliers, sorted, hzip] at hinequalities
  obtain ⟨hvsize, hvpoint⟩ := addEqualities_eq (fun e he => relation_of_mem_equalities he)
    (fun e he => h.residuals e (List.mem_of_mem_filter he))
    (fun e he => hsize e (List.mem_of_mem_filter he)) hstart hequalities
  obtain ⟨husize, hupoint⟩ := addInequalities_eq (fun e he => relation_of_mem_inequalities he)
    (fun e he => h.residuals e (List.mem_of_mem_filter he))
    (fun e he => hsize e (List.mem_of_mem_filter he)) hvsize hinequalities
  refine ⟨own, hg, husize, ?_⟩
  rw [hupoint, hvpoint, Vec.toEuclid_map_mul, add_assoc, sum_sorted]

end Lagrangian

end Optima
