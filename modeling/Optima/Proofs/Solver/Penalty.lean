import Optima.Proofs.Scalar.Real
import Optima.Proofs.Solver.Multipliers

/-!
The penalty of a solve. An iteration leaves it as it is or raises it, so that what holds of the
initial penalty and is kept when it is raised holds of the penalty in every iteration. In exact
arithmetic, with settings that pass their checks, the penalty is positive.
-/

namespace Optima

section Visited

variable {α : Type} [Scalar α] {problem : Problem α} {minimizer : Minimizer α}
  {settings : Settings α} {start : Vec α} {interrupt : Snapshot α → Bool}

/-- An iteration leaves its own penalty behind or the raised one. -/
theorem nextPenalty_cases (settings : Settings α) (p : Progress α) :
    nextPenalty settings p = p.lagrangian.penalty ∨
      nextPenalty settings p = settings.raised p.lagrangian.penalty := by
  unfold nextPenalty
  split
  · exact Or.inl rfl
  · split
    · exact Or.inr rfl
    · exact Or.inl rfl

theorem penalty_of_moves {p q : Progress α} {snapshot : Snapshot α} {slope : Vec α}
    (h : Moves minimizer p q snapshot slope) : q.lagrangian.penalty = p.lagrangian.penalty := by
  obtain ⟨r, -, hupdated⟩ := Lagrangian.updateMultipliers_eq_ok.mp h.updated
  rw [← hupdated]

/-- Induction over the iterations for a property of the penalty alone. -/
theorem Problem.Visits.penalty {P : α → Prop} (hinitial : P settings.initialPenalty)
    (hraised : ∀ penalty, P penalty → P (settings.raised penalty)) {p : Progress α}
    (h : problem.Visits minimizer settings start interrupt p) : P p.lagrangian.penalty := by
  induction h with
  | opening hopens _ =>
      obtain ⟨_, _, -, -, rfl⟩ := hopens
      exact hinitial
  | proceed _ hiterate ih =>
      obtain ⟨q, snapshot, hadvance, -, rfl⟩ := iterate_proceed hiterate
      obtain ⟨slope, hmoves⟩ := advance_moved hadvance
      have hq : P q.lagrangian.penalty := by
        rw [penalty_of_moves hmoves]
        exact ih
      change P (nextPenalty settings q)
      rcases nextPenalty_cases settings q with hkept | hnext
      · rw [hkept]
        exact hq
      · rw [hnext]
        exact hraised _ hq

end Visited

/-- What settings are checked for. -/
structure Settings.Accepted (settings : Settings ℝ) : Prop where
  maxIterations : 0 < settings.maxIterations
  tolerance : 0 < settings.tolerance
  constraintTolerance : 0 < settings.constraintTolerance
  gradientTolerance : 0 < settings.gradientTolerance
  maxInnerIterations : 0 < settings.maxInnerIterations
  initialPenalty : 0 < settings.initialPenalty
  penaltyIncrease : 1 < settings.penaltyIncrease
  maxPenalty : 0 < settings.maxPenalty
  minDerivative : 0 < settings.minDerivative
  differenceStep : 0 < settings.differenceStep

variable {problem : Problem ℝ} {minimizer : Minimizer ℝ} {settings : Settings ℝ} {start : Vec ℝ}
  {interrupt : Snapshot ℝ → Bool}

theorem Settings.Accepted.raised_pos (h : settings.Accepted) {penalty : ℝ}
    (hpenalty : 0 < penalty) : 0 < settings.raised penalty := by
  have hincrease : 0 < settings.penaltyIncrease := zero_lt_one.trans h.penaltyIncrease
  unfold Settings.raised
  rw [Exact.smaller_eq]
  exact lt_min (mul_pos hpenalty hincrease) h.maxPenalty

theorem Problem.Visits.penalty_pos (haccepted : settings.Accepted) {p : Progress ℝ}
    (h : problem.Visits minimizer settings start interrupt p) : 0 < p.lagrangian.penalty :=
  h.penalty (P := fun penalty => 0 < penalty) haccepted.initialPenalty
    fun _ => haccepted.raised_pos

end Optima
