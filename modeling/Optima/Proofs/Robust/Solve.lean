import Optima.Proofs.Robust.Epigraph
import Optima.Proofs.Solver.Returns
import Optima.Robust.Minimax

/-!
One solve of the lifted problem, for whatever the minimizer returns. It starts from a decision and
the worst case over the points, both of which have to be finite, and it ends in a finite decision of
the same dimension. If objective and residuals have values at all decisions of this dimension, it
returns exactly if the worst case is finite; otherwise the start is refused.
-/

namespace Optima

variable {α : Type}

section Lifted

variable {n : Nat} {z : Vec α} {t : α}

theorem boundOf_eq_ok (h : boundOf n z = .ok t) : n < z.size ∧ t ∈ z.toList := by
  have hplace := Vec.get_natCast_eq_ok.mp h
  exact ⟨(List.getElem?_eq_some_iff.mp hplace).1, List.mem_of_getElem? hplace⟩

theorem size_decisionOf_of_boundOf (h : boundOf n z = .ok t) :
    (decisionOf n z).size = n := by
  have hbound : n < z.toList.length := (boundOf_eq_ok h).1
  simp only [decisionOf, Vec.segment, Vec.size, List.drop_zero, List.length_take]
  omega

variable [Scalar α]

theorem isFinite_decisionOf (h : z.isFinite = true) : (decisionOf n z).isFinite = true := by
  rw [Vec.isFinite, List.all_eq_true] at h ⊢
  intro y hy
  simp only [decisionOf, Vec.segment, List.drop_zero] at hy
  exact h y (List.mem_of_mem_take hy)

theorem Vec.isFinite_extend (x : Vec α) (t : α) :
    (x.extend t).isFinite = (x.isFinite && Scalar.isFinite t) := by
  simp [Vec.isFinite, Vec.extend]

end Lifted

namespace RobustProblem

variable [Scalar α] {problem : RobustProblem α} {minimizer : Minimizer α} {settings : Settings α}
  {points : List (Vec α)} {x : Vec α} {solved : Outcome α}

theorem solveOver_eq {w : α} {p : Vec α}
    (hworst : worstCase problem.sense problem.objective x points = .ok (w, p)) :
    problem.solveOver minimizer settings points x =
      (epigraph x.size problem.sense problem.objective problem.constraints points).optimize
        minimizer settings (x.extend w) fun _ => false := by
  have hlifted := liftedStart_eq_ok.mpr ⟨w, p, hworst, rfl⟩
  simp only [solveOver, hlifted]
  rfl

/-- The problem over several points is solved from the bound that is tight at the start. -/
theorem solveOver_eq_ok :
    problem.solveOver minimizer settings points x = .ok solved ↔
      ∃ w p, worstCase problem.sense problem.objective x points = .ok (w, p) ∧
        (epigraph x.size problem.sense problem.objective problem.constraints points).optimize
          minimizer settings (x.extend w) (fun _ => false) = .ok solved := by
  constructor
  · intro h
    obtain ⟨_, hlifted, -⟩ := bind_eq_ok.mp h
    obtain ⟨w, p, hworst, -⟩ := liftedStart_eq_ok.mp hlifted
    exact ⟨w, p, hworst, solveOver_eq hworst ▸ h⟩
  · rintro ⟨w, p, hworst, hsolved⟩
    rw [solveOver_eq hworst]
    exact hsolved

/-- A solve starts from a finite decision. -/
theorem isFinite_of_solveOver
    (h : problem.solveOver minimizer settings points x = .ok solved) : x.isFinite = true := by
  obtain ⟨w, p, -, hsolved⟩ := solveOver_eq_ok.mp h
  have hstart := isFinite_start_of_optimize hsolved
  rw [Vec.isFinite_extend, Bool.and_eq_true] at hstart
  exact hstart.1

/-- A solve ends in a finite decision of the same dimension, since the bound
behind it was measured. -/
theorem decision_of_solveOver
    (h : problem.solveOver minimizer settings points x = .ok solved) :
    (decisionOf x.size solved.solution).size = x.size ∧
      (decisionOf x.size solved.solution).isFinite = true := by
  obtain ⟨w, p, -, hsolved⟩ := solveOver_eq_ok.mp h
  have hbound := (measured_of_optimize hsolved).1
  exact ⟨size_decisionOf_of_boundOf hbound, isFinite_decisionOf (isFinite_of_optimize hsolved)⟩

/-- A worst case that is not finite makes no start, whatever the problem is. -/
theorem solveOver_refuses {w : α} {p : Vec α}
    (hworst : worstCase problem.sense problem.objective x points = .ok (w, p))
    (hw : Scalar.isFinite w = false) :
    problem.solveOver minimizer settings points x =
      .error (.misuse (.notFinite "initial_state")) := by
  have hcomponents : (x.extend w).toList.isEmpty = false := by simp [Vec.extend]
  have hstart : (x.extend w).isFinite = false := by
    rw [Vec.isFinite_extend, hw, Bool.and_false]
  rw [solveOver_eq hworst]
  simp only [Problem.optimize, hcomponents, hstart, Bool.not_false, Bool.false_eq_true, if_false,
    if_true]
  rfl

/-- The lifted problem has values wherever the robust one has them. -/
theorem epigraph_evaluates {n : Nat}
    (hconstraints : ∀ c ∈ problem.constraints, ∀ y, y.size = n → ∃ r, c.residual y = .ok r)
    (hvalues : ∀ y, y.size = n → ∀ p ∈ points, ∃ v, problem.objective y p = .ok v) :
    (epigraph n problem.sense problem.objective problem.constraints points).Evaluates (n + 1) where
  objective z hz := by
    obtain ⟨y, t, hy, rfl⟩ := Vec.exists_eq_extend hz
    exact ⟨t, boundOf_extend hy t⟩
  residual c hc z hz := by
    obtain ⟨y, t, hy, rfl⟩ := Vec.exists_eq_extend hz
    rcases List.mem_append.mp hc with hc | hc
    · obtain ⟨d, hd, rfl⟩ := List.mem_map.mp hc
      simp only [Constraint.lift, decisionOf_extend hy]
      exact hconstraints d hd y hy
    · obtain ⟨p, hp, rfl⟩ := List.mem_map.mp hc
      obtain ⟨v, hv⟩ := hvalues y hy p hp
      exact ⟨_, (residual_boundAt hy p _).mpr ⟨v, hv, rfl⟩⟩
  gradient := rfl
  gradients c hc := by
    rcases List.mem_append.mp hc with hc | hc
    · obtain ⟨d, -, rfl⟩ := List.mem_map.mp hc
      rfl
    · obtain ⟨p, -, rfl⟩ := List.mem_map.mp hc
      rfl

/-- From a finite decision with a finite worst case a solve returns. -/
theorem solveOver_responds (hsettings : settings.Steady) (hserves : minimizer.Serves)
    (hconstraints : ∀ c ∈ problem.constraints, ∀ y, y.size = x.size → ∃ r, c.residual y = .ok r)
    (hvalues : ∀ y, y.size = x.size → ∀ p ∈ points, ∃ v, problem.objective y p = .ok v)
    {w : α} {p : Vec α}
    (hworst : worstCase problem.sense problem.objective x points = .ok (w, p))
    (hx : x.isFinite = true) (hw : Scalar.isFinite w = true) :
    ∃ solved, problem.solveOver minimizer settings points x = .ok solved := by
  have hresponds := (epigraph_evaluates hconstraints hvalues).responds
  rw [← Vec.size_extend (t := w)] at hresponds
  have hcomponents : (x.extend w).toList.isEmpty = false := by simp [Vec.extend]
  have hstart : (x.extend w).isFinite = true := by
    rw [Vec.isFinite_extend, hx, hw]
    rfl
  rw [solveOver_eq hworst]
  exact optimize_responds hsettings hserves hresponds hcomponents hstart

end RobustProblem

end Optima
