import Optima.Proofs.Scalar.Real
import Optima.Proofs.Solver.Multipliers

/-!
Updates one after the other. Any penalties may be set before the updates, and any points may be
gone to. The updates succeed exactly when every constraint has a residual at every point, and then
the multiplier that stands at the place of a constraint is the one that its own rule, applied to
its own residuals alone, arrives at. The two groups that multipliers are kept in leave no trace.
-/

namespace Optima

variable {α : Type} [Scalar α]

/-- The Lagrangian after a sequence of updates, with the penalty of each step
set before its update. -/
def Lagrangian.after (L : Lagrangian α) (steps : List (Step α)) : Except Fault (Lagrangian α) :=
  steps.foldlM (fun L s => { L with penalty := s.penalty }.updateMultipliers s.point) L

theorem Lagrangian.after_append {L next : Lagrangian α} {steps : List (Step α)} {s : Step α} :
    L.after (steps ++ [s]) = .ok next ↔ ∃ last, L.after steps = .ok last ∧
      { last with penalty := s.penalty }.updateMultipliers s.point = .ok next := by
  simp only [after, List.foldlM_append, List.foldlM_cons, List.foldlM_nil, bind_pure, bind_eq_ok]

/-- What is reached after a sequence of updates is reached by its steps. -/
theorem Problem.reaches_of_after {problem : Problem α} {step penalty : α} {steps : List (Step α)}
    {L : Lagrangian α} (h : (Lagrangian.start problem step penalty).after steps = .ok L) :
    problem.Reaches steps L := by
  induction steps using List.reverseRecOn generalizing L with
  | nil =>
      cases h
      exact .start step penalty
  | append_singleton steps s ih =>
      obtain ⟨last, hlast, hupdated⟩ := Lagrangian.after_append.mp h
      exact ((ih hlast).penalized s.penalty).updated hupdated

theorem Lagrangian.updateMultipliers_succeeds_iff {L : Lagrangian α} {x : Vec α} :
    (∃ next, L.updateMultipliers x = .ok next) ↔
      ∀ c ∈ L.problem.constraints, ∃ r, c.residual x = .ok r := by
  constructor
  · rintro ⟨next, hnext⟩ c hc
    obtain ⟨r, hr, -⟩ := updateMultipliers_eq_ok.mp hnext
    exact Problem.residual_of_residuals hr hc
  · intro h
    obtain ⟨r, hr⟩ := Problem.residuals_succeed h
    exact ⟨_, updateMultipliers_eq_ok.mpr ⟨r, hr, rfl⟩⟩

/-- Updates succeed exactly where every residual can be computed. -/
theorem Lagrangian.after_succeeds_iff {problem : Problem α} {step penalty : α}
    {steps : List (Step α)} :
    (∃ L, (Lagrangian.start problem step penalty).after steps = .ok L) ↔
      ∀ s ∈ steps, ∀ c ∈ problem.constraints, ∃ r, c.residual s.point = .ok r := by
  induction steps using List.reverseRecOn with
  | nil =>
      simp only [List.not_mem_nil, false_implies, implies_true, iff_true]
      exact ⟨_, rfl⟩
  | append_singleton steps s ih =>
      simp only [List.mem_append, List.mem_singleton, or_imp, forall_and, forall_eq, ← ih,
        after_append]
      constructor
      · rintro ⟨next, last, hlast, hnext⟩
        have hsame := (Problem.reaches_of_after hlast).problem_eq
        refine ⟨⟨last, hlast⟩, ?_⟩
        rw [← hsame]
        exact (updateMultipliers_succeeds_iff (L := { last with penalty := s.penalty })).mp
          ⟨next, hnext⟩
      · rintro ⟨⟨last, hlast⟩, hresiduals⟩
        have hsame := (Problem.reaches_of_after hlast).problem_eq
        rw [← hsame] at hresiduals
        obtain ⟨next, hnext⟩ :=
          (updateMultipliers_succeeds_iff (L := { last with penalty := s.penalty })).mpr hresiduals
        exact ⟨next, last, hlast, hnext⟩

/-- The multiplier of an equality is a sum over the steps. -/
theorem Constraint.multiplierAfter_of_equality {c : Constraint α} (hc : c.relation = .equality)
    (steps : List (Step α)) :
    c.multiplierAfter steps =
      steps.foldlM (fun l s => do return l + s.penalty * (← c.residual s.point)) 0 := by
  simp only [multiplierAfter, Lagrangian.shift, hc, equalityShift]

/-- The multiplier of an inequality is cut off at zero in every step. -/
theorem Constraint.multiplierAfter_of_inequality {c : Constraint α}
    (hc : c.relation = .inequality) (steps : List (Step α)) :
    c.multiplierAfter steps =
      steps.foldlM
        (fun n s => do return Scalar.maximum 0 (n + s.penalty * (← c.residual s.point))) 0 := by
  simp only [multiplierAfter, Lagrangian.shift, hc, inequalityShift]

/-- Updates succeed exactly if every constraint has a residual at every point.
Then there is one multiplier for each constraint, in order: the one that an
equality arrives at by adding the penalty times its residual in every step, and
that an inequality arrives at by doing the same and never going below zero. -/
theorem each_multiplier_follows_its_own_constraint (problem : Problem α) (step penalty : α)
    (steps : List (Step α)) :
    ((∃ L, (Lagrangian.start problem step penalty).after steps = .ok L) ↔
      ∀ s ∈ steps, ∀ c ∈ problem.constraints, ∃ r, c.residual s.point = .ok r) ∧
    ∀ L, (Lagrangian.start problem step penalty).after steps = .ok L →
      List.Forall₂
        (fun c m => match c.relation with
          | .equality =>
            steps.foldlM (fun l s => do return l + s.penalty * (← c.residual s.point)) (0 : α) =
              .ok m
          | .inequality =>
            steps.foldlM
              (fun n s => do return Scalar.maximum 0 (n + s.penalty * (← c.residual s.point)))
              (0 : α) = .ok m)
        problem.constraints L.multipliersInOrder := by
  refine ⟨Lagrangian.after_succeeds_iff, ?_⟩
  intro L hL
  refine (Problem.reaches_of_after hL).multipliersInOrder.imp ?_
  intro c m hm
  cases hc : c.relation with
  | equality => rwa [Constraint.multiplierAfter_of_equality hc] at hm
  | inequality => rwa [Constraint.multiplierAfter_of_inequality hc] at hm

/-- One component that is at most two, that equals one, and that is not negative. -/
noncomputable def betweenLimits : Problem ℝ where
  objective x := x.get 0
  constraints :=
    [{ relation := .inequality, residual := fun x => do return (← x.get 0) - (2 : ℕ) },
     { relation := .equality, residual := fun x => do return (← x.get 0) - 1 },
     { relation := .inequality, residual := fun x => do return -(← x.get 0) }]
  weight := 1

/-- First far above all limits, then a little below the one to be equal to. -/
noncomputable def overAndBack : List (Step ℝ) :=
  [⟨(10 : ℕ), ⟨[(3 : ℕ)]⟩⟩, ⟨(2 : ℕ), ⟨[1 / (2 : ℕ)]⟩⟩]

theorem betweenLimits_multipliers :
    ∃ L, (Lagrangian.start betweenLimits 1e-6 10).after overAndBack = .ok L ∧
      L.multipliersInOrder = [7, 19, 0] := by
  obtain ⟨hsucceeds, hrules⟩ :=
    each_multiplier_follows_its_own_constraint betweenLimits 1e-6 10 overAndBack
  have hresiduals : ∀ s ∈ overAndBack, ∀ c ∈ betweenLimits.constraints,
      ∃ r, c.residual s.point = .ok r := by
    simp only [overAndBack, betweenLimits, List.mem_cons, List.not_mem_nil, or_false,
      forall_eq_or_imp, forall_eq]
    exact ⟨⟨⟨_, rfl⟩, ⟨_, rfl⟩, ⟨_, rfl⟩⟩, ⟨_, rfl⟩, ⟨_, rfl⟩, ⟨_, rfl⟩⟩
  obtain ⟨L, hL⟩ := hsucceeds.mpr hresiduals
  refine ⟨L, hL, ?_⟩
  have hmultipliers := hrules L hL
  simp only [betweenLimits, List.forall₂_cons_left_iff, List.forall₂_nil_left_iff] at hmultipliers
  obtain ⟨upper, -, hupper, ⟨equal, -, hequal, ⟨lower, -, hlower, rfl, rfl⟩, rfl⟩, horder⟩ :=
    hmultipliers
  have hupper : Except.ok (Scalar.maximum 0 (Scalar.maximum 0 (0 + 10 * (3 - 2)) +
      2 * (1 / 2 - 2))) = Except.ok upper := hupper
  have hequal : Except.ok (0 + 10 * (3 - 1) + 2 * (1 / 2 - 1)) = Except.ok equal := hequal
  have hlower : Except.ok (Scalar.maximum 0 (Scalar.maximum 0 (0 + 10 * -3) +
      2 * -(1 / 2))) = Except.ok lower := hlower
  rw [horder]
  cases hupper
  cases hequal
  cases hlower
  norm_num

end Optima
