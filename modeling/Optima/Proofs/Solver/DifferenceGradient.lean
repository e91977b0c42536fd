import Optima.Proofs.Difference

/-!
Numeric and analytic gradients of the augmented Lagrangian. With a quadratic objective and affine
equalities the value is a parabola along each axis: an equality adds its multiplier times its
residual and half the penalty times the square of the residual. Its slope is the one that the known
gradients are put together to, so central differences find the same gradient, for all multipliers
and penalties.
-/

namespace Optima

open Matrix

variable {n : ℕ}

/-- A problem with a quadratic objective under affine equalities only, with the
gradients that they have. -/
structure Problem.IsQuadratic (problem : Problem ℝ) (q : Quadratic n) (as : List (Affine n)) :
    Prop where
  objective (y : Fin n → ℝ) : problem.objective (Vec.ofFn y) = .ok (q.value y)
  gradient : ∃ gradient, problem.gradient = some gradient ∧
    ∀ y : Fin n → ℝ, gradient (Vec.ofFn y) = .ok (Vec.ofFn (q.slope y))
  constraints : List.Forall₂ (fun c a => c.relation = .equality ∧ c.IsAffine a)
    problem.constraints as

/-- The same Lagrangian where the gradient of the objective is not known, so
that differences of the value are taken. -/
def Lagrangian.withoutGradient (L : Lagrangian ℝ) : Lagrangian ℝ :=
  { L with problem := { L.problem with gradient := none } }

noncomputable def Affine.penalized (penalty multiplier : ℝ) (a : Affine n) (y : Fin n → ℝ) : ℝ :=
  multiplier * a.value y + 0.5 * penalty * (a.value y * a.value y)

theorem Affine.parabolicAt_penalized (penalty multiplier : ℝ) (a : Affine n) (x : Fin n → ℝ) :
    ParabolicAt (a.penalized penalty multiplier) x
      ((multiplier + penalty * a.value x) • a.normal) := by
  refine ⟨fun i => 0.5 * penalty * a.normal i ^ 2, fun i t => ?_⟩
  have hmoved : a.value (Function.update x i (x i + t)) = a.value x + a.normal i * t := by
    rw [update_add_eq, a.value_add, dotProduct_single]
  simp only [penalized, hmoved, Pi.smul_apply, smul_eq_mul]
  norm_num
  ring

namespace Lagrangian

theorem addScaled_ofFn (v w : Fin n → ℝ) (weight : ℝ) :
    addScaled (Vec.ofFn v) weight (Vec.ofFn w) = .ok (Vec.ofFn (v + weight • w)) := by
  rw [addScaled_eq (by simp), Vec.ofFn, Vec.ofFn, Vec.zipWith_ofFn]
  rfl

/-- The gradients of affine equalities, weighted by their shifted multipliers. -/
theorem addEqualities_affine {cs : List (Constraint ℝ)} {as : List (Affine n)}
    (h : List.Forall₂ (fun c a => c.IsAffine a) cs as) (penalty : ℝ) (x v : Fin n → ℝ)
    (multipliers : List ℝ) :
    addEqualities penalty (Vec.ofFn x) (Vec.ofFn v) (cs.zip multipliers) =
      .ok (Vec.ofFn (v + ((as.zip multipliers).map fun e =>
        (e.2 + penalty * e.1.value x) • e.1.normal).sum)) := by
  induction h generalizing v multipliers with
  | nil => simp [addEqualities]
  | @cons c a cs as hc _ ih =>
      cases multipliers with
      | nil => simp [addEqualities]
      | cons m multipliers =>
          rw [List.zip_cons_cons, List.zip_cons_cons, addEqualities, hc.residual, hc.gradient,
            List.map_cons, List.sum_cons, ← add_assoc, ← ih]
          change (addScaled _ _ _ >>= _) = _
          rw [addScaled_ofFn]
          rfl

end Lagrangian

section

variable {L : Lagrangian ℝ} {q : Quadratic n} {as : List (Affine n)}

theorem Problem.IsQuadratic.affine {problem : Problem ℝ} (h : problem.IsQuadratic q as) :
    List.Forall₂ (fun c a => c.IsAffine a) problem.constraints as :=
  h.constraints.imp fun _ _ hc => hc.2

theorem Problem.IsQuadratic.parts_eq {problem : Problem ℝ} (h : problem.IsQuadratic q as) :
    problem.parts = ⟨problem.constraints, []⟩ := by
  have hrelation : ∀ c ∈ problem.constraints, c.isEquality = true := by
    intro c hc
    have heach := ((List.forall₂_and_left _ _).mp h.constraints).1 c hc
    rw [Constraint.isEquality, heach]
    rfl
  simp only [parts, ByRelation.mk.injEq]
  constructor
  · exact List.filter_eq_self.mpr hrelation
  · rw [List.filter_eq_nil_iff]
    intro c hc
    simp [hrelation c hc]

theorem Problem.IsQuadratic.isAnalytic {problem : Problem ℝ} (h : problem.IsQuadratic q as) :
    problem.isAnalytic = true := by
  obtain ⟨gradient, hgradient, -⟩ := h.gradient
  have hknown : List.Forall₂ (fun c a => c.gradient.isSome = true ∧ c.IsAffine a)
      problem.constraints as := by
    refine h.affine.imp fun c a hc => ⟨?_, hc⟩
    obtain ⟨known, hsome, -⟩ := hc.exists_gradient
    rw [hsome, Option.isSome_some]
  rw [Problem.isAnalytic, hgradient, Option.isSome_some, Bool.true_and, List.all_eq_true]
  exact ((List.forall₂_and_left _ _).mp hknown).1

theorem Problem.IsQuadratic.residuals_eq {problem : Problem ℝ} (h : problem.IsQuadratic q as)
    (y : Fin n → ℝ) :
    problem.residuals (Vec.ofFn y) = .ok ⟨as.map (·.value y), []⟩ := by
  rw [residuals_eq_ok, h.parts_eq]
  refine ⟨?_, rfl⟩
  rw [mapM_eq_ok, List.forall₂_map_right_iff]
  exact h.affine.imp fun c a hc => hc.residual y

theorem Problem.IsQuadratic.length_eq (h : L.problem.IsQuadratic q as) (hbalanced : L.Balanced) :
    as.length = L.multipliers.equalities.length := by
  rw [hbalanced.equalities, h.parts_eq]
  exact h.constraints.length_eq.symm

theorem equalityTerm_affine {multipliers : List ℝ} (hlength : as.length = multipliers.length)
    (penalty : ℝ) (y : Fin n → ℝ) :
    Lagrangian.equalityTerm penalty multipliers (as.map (·.value y)) =
      ((as.zip multipliers).map fun e => e.1.penalized penalty e.2 y).sum := by
  have hmultipliers : multipliers = (as.zip multipliers).map fun e => e.2 :=
    (List.map_snd_zip hlength.ge).symm
  have hresiduals : as.map (·.value y) = (as.zip multipliers).map fun e => e.1.value y := calc
    as.map (·.value y) = ((as.zip multipliers).map Prod.fst).map (·.value y) := by
      rw [List.map_fst_zip hlength.le]
    _ = (as.zip multipliers).map fun e => e.1.value y := List.map_map
  rw [hresiduals]
  generalize as.zip multipliers = members at hmultipliers
  rw [hmultipliers, Lagrangian.equalityTerm, Exact.dot_map, Exact.dot_map, ← List.sum_map_mul_left,
    ← List.sum_map_add]
  rfl

/-- With affine equalities the augmented Lagrangian is quadratic, too. -/
theorem Problem.IsQuadratic.value_eq (h : L.problem.IsQuadratic q as) (hbalanced : L.Balanced)
    (y : Fin n → ℝ) :
    L.value (Vec.ofFn y) = .ok (L.problem.weight * q.value y +
      ((as.zip L.multipliers.equalities).map fun e =>
        e.1.penalized L.penalty e.2 y).sum) := by
  have hterm := equalityTerm_affine (h.length_eq hbalanced) L.penalty y
  simp only [Lagrangian.value, h.objective, h.residuals_eq, bind_eq_ok]
  refine ⟨_, rfl, _, rfl, ?_⟩
  simp only [Lagrangian.combine, hterm]
  -- Without equalities there is no term, and its sum is zero.
  cases as with
  | nil => simp [pure, Except.pure]
  | cons a as => rfl

/-- The known gradients are put together to the slope of the value. -/
theorem Problem.IsQuadratic.gradient_eq (h : L.problem.IsQuadratic q as) (x : Fin n → ℝ) :
    L.gradient (Vec.ofFn x) = .ok (Vec.ofFn (L.problem.weight • q.slope x +
      ((as.zip L.multipliers.equalities).map fun e =>
        (e.2 + L.penalty * e.1.value x) • e.1.normal).sum)) := by
  obtain ⟨gradient, hgradient, hown⟩ := h.gradient
  have hweighted : (⟨(Vec.ofFn (q.slope x)).toList.map fun d => L.problem.weight * d⟩ : Vec ℝ) =
      Vec.ofFn (L.problem.weight • q.slope x) := by
    rw [Vec.ofFn, List.map_ofFn]
    rfl
  have hequalities := Lagrangian.addEqualities_affine h.affine L.penalty x
    (L.problem.weight • q.slope x) L.multipliers.equalities
  simp only [Lagrangian.gradient, hgradient, h.isAnalytic, if_true, Lagrangian.analyticGradient,
    h.parts_eq, bind_eq_ok]
  refine ⟨_, hown x, _, ?_, rfl⟩
  rw [hweighted]
  exact hequalities

theorem Problem.IsQuadratic.parabolicAt (q : Quadratic n) (as : List (Affine n))
    (multipliers : List ℝ) (weight penalty : ℝ) (x : Fin n → ℝ) :
    ParabolicAt
      (fun y => weight * q.value y +
        ((as.zip multipliers).map fun e => e.1.penalized penalty e.2 y).sum) x
      (weight • q.slope x +
        ((as.zip multipliers).map fun e => (e.2 + penalty * e.1.value x) • e.1.normal).sum) :=
  ((q.parabolicAt x).const_mul weight).add
    (ParabolicAt.sum_map fun e _ => e.1.parabolicAt_penalized penalty e.2 x)

end

section Valley

noncomputable def valley : Problem ℝ where
  objective z := do
    let a ← z.get 0
    let b ← z.get 1
    return a * a + a * b + b * b + a - b + 1
  gradient := some fun z => do
    let a ← z.get 0
    let b ← z.get 1
    return ⟨[a + a + b + 1, a + b + b - 1]⟩
  constraints := [
    { relation := .equality
      residual := fun z => do return (← z.get 0) + (← z.get 1) - 1
      gradient := some fun _ => .ok ⟨[1, 1]⟩ }]
  weight := Sense.maximize.sign

noncomputable def valleyQuadratic : Quadratic 2 := ⟨!![1, 1; 0, 1], ![1, -1], 1⟩

def valleyAffine : Affine 2 := ⟨![1, 1], -1⟩

noncomputable def valleyLagrangian : Lagrangian ℝ where
  problem := valley
  step := 0.5
  multipliers := ⟨[1], []⟩
  penalty := 1.5

theorem valley_slope (y : Fin 2 → ℝ) :
    valleyQuadratic.slope y = ![y 0 + y 0 + y 1 + 1, y 0 + y 1 + y 1 - 1] := by
  apply funext
  rw [Fin.forall_fin_two]
  simp only [Quadratic.slope, valleyQuadratic, Pi.add_apply, mulVec, dotProduct, Fin.sum_univ_two,
    Matrix.add_apply, transpose_apply, of_apply, cons_val_zero, cons_val_one]
  constructor
  · ring
  · ring

theorem valley_isQuadratic : valley.IsQuadratic valleyQuadratic [valleyAffine] where
  objective y := by
    have hvalue : valleyQuadratic.value y =
        y 0 * y 0 + y 0 * y 1 + y 1 * y 1 + y 0 - y 1 + 1 := by
      simp only [Quadratic.value, valleyQuadratic, dotProduct, mulVec, Fin.sum_univ_two, of_apply,
        cons_val_zero, cons_val_one]
      ring
    rw [hvalue]
    rfl
  gradient := by
    refine ⟨_, rfl, fun y => ?_⟩
    rw [valley_slope]
    rfl
  constraints := by
    refine .cons ⟨rfl, fun y => ?_, fun y => rfl⟩ .nil
    have hvalue : valleyAffine.value y = y 0 + y 1 - 1 := by
      simp only [Affine.value, valleyAffine, dotProduct, Fin.sum_univ_two, cons_val_zero,
        cons_val_one]
      ring
    rw [hvalue]
    rfl

/-- A function that is not constant, but vanishes wherever differences with a
step of a half look at it from the point of the next theorem. -/
noncomputable def ripple (z : Vec ℝ) : Except Fault ℝ := do
  let a ← z.get 0
  let b ← z.get 1
  return (a - 1.5) * (a - 4.5) * (b + 0.5) * (b + 1.5)

end Valley

end Optima
