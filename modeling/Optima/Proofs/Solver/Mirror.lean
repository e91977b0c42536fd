import Optima.Proofs.Solver.Matching
import Optima.Proofs.Solver.Nesting
import Optima.Proofs.Scalar.Real

/-!
Maximizing an objective is minimizing its opposite. The sign of a problem enters the value of the
augmented Lagrangian and its gradient, but the objective is reported, and tested, without it. The
opposite objective with the opposite sign gives the minimizer the same function and the same
gradient, and no test of a solve sees the sign, so that both solves take the same way.
-/

namespace Optima

theorem unseen_neg : Unseen (Neg.neg : ℝ → ℝ) where
  isFinite _ := rfl
  magnitude := abs_neg
  distance v w := by
    change |-v - -w| = |v - w|
    rw [← neg_sub', abs_neg]

noncomputable def Problem.mirrored (problem : Problem ℝ) : Problem ℝ where
  objective x := Neg.neg <$> problem.objective x
  gradient := problem.gradient.map fun gradient x => Vec.neg <$> gradient x
  constraints := problem.constraints
  weight := -problem.weight

namespace Problem

theorem mirrored_matches (problem : Problem ℝ) :
    problem.Matches Neg.neg (fun _ => True) problem.mirrored where
  objective _ := rfl
  weight := neg_mul_neg problem.weight
  relations := rfl
  residuals _ := rfl
  degenerate _ _ _ _ _ := rfl

theorem mirrored_value (L : Lagrangian ℝ) :
    ({ L with problem := L.problem.mirrored } : Lagrangian ℝ).value = L.value :=
  funext fun _ => L.problem.mirrored_matches.value_eq rfl trivial

/-- The signs cancel in the gradient as well, known or not. -/
theorem mirrored_gradient (L : Lagrangian ℝ) :
    ({ L with problem := L.problem.mirrored } : Lagrangian ℝ).gradient = L.gradient := by
  funext x
  have hvalue := mirrored_value L
  have hanalytic : L.problem.mirrored.isAnalytic = L.problem.isAnalytic := by
    simp only [isAnalytic, mirrored, Option.isSome_map]
  unfold Lagrangian.gradient
  rw [hvalue, hanalytic]
  cases hgradient : L.problem.gradient with
  | none => simp only [mirrored, hgradient, Option.map_none]
  | some gradient =>
      simp only [mirrored, hgradient, Option.map_some, Lagrangian.analyticGradient, parts, Vec.neg,
        bind_map_left, List.map_map, Function.comp_def, neg_mul_neg]

/-- Maximizing the opposite takes the same steps and reports the opposite objectives. -/
theorem mirrored_optimize (problem : Problem ℝ) (minimizer : Minimizer ℝ) (settings : Settings ℝ)
    (start : Vec ℝ) :
    problem.mirrored.optimize minimizer settings start (fun _ => false) =
      Outcome.recast Neg.neg <$> problem.optimize minimizer settings start fun _ => false := by
  have hfound : ∀ {L : Lagrangian ℝ} {x : Vec ℝ}, L.problem = problem → True →
      minimizer { L with problem := problem.mirrored : Lagrangian ℝ }.value
        { L with problem := problem.mirrored : Lagrangian ℝ }.gradient x =
          minimizer L.value L.gradient x := by
    rintro L x rfl _
    rw [mirrored_value, mirrored_gradient]
  have hagree : Agree _ (problem.optimize minimizer settings start fun _ => false)
      (problem.mirrored.optimize minimizer settings start fun _ => false) :=
    problem.mirrored_matches.optimize_agree unseen_neg hfound (fun _ _ _ => trivial) trivial
      fun _ => rfl
  exact (hagree.mono fun _ _ h => h.2).eq_map

end Problem

/-- Minimizing the opposite objective, with the opposite gradient if there is
one, ends with the fault that maximizing the objective ends with, or with the
same outcome up to the sign of the objectives it reports. -/
theorem minimize_neg_eq_maximize (minimizer : Minimizer ℝ) (settings : Settings ℝ)
    (objective : Vec ℝ → Except Fault ℝ) (gradient : Option (Vec ℝ → Except Fault (Vec ℝ)))
    (start : Vec ℝ) (items : Nested (Item ℝ)) :
    optimizeNested minimizer settings (fun x => Neg.neg <$> objective x)
        (gradient.map fun gradient x => Vec.neg <$> gradient x) start items .minimize
        (fun _ => false) =
      Outcome.recast Neg.neg <$>
        optimizeNested minimizer settings objective gradient start items .maximize
          fun _ => false := by
  simp only [optimizeNested, map_bind]
  apply bind_congr
  intro constraints
  have hmirrored := Problem.mirrored_optimize
    { objective, gradient, constraints, weight := Sense.maximize.sign } minimizer settings start
  have hsign : -(Sense.maximize.sign : ℝ) = Sense.minimize.sign := neg_neg 1
  simp only [Problem.mirrored, hsign] at hmirrored
  exact hmirrored

end Optima
