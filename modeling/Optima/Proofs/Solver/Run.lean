import Optima.Proofs.Success
import Optima.Solver.Outcome

/-!
The states of a solve. `Visits` holds of the states between two iterations, whatever the minimizer
returns; what one iteration can do is said once, and everything that holds along a whole run is
derived from it by induction on the visited states. The last statement names all ways in which a
solve ends.
-/

namespace Optima

variable {α : Type} [Scalar α]

section Iteration

variable {minimizer : Minimizer α} {settings : Settings α} {interrupt : Snapshot α → Bool}

/-- An iteration comes to one of three things before it is judged. The point
is not finite and the old one is kept; or the point is taken over with the
numbers measured there, one of which is not finite; or all numbers are finite
and the multipliers move. The snapshot shows the numbers, the length of the
minimizer's gradient and the penalty that the point was found with. -/
theorem advance_cases {p : Progress α} {a : Advance α}
    (h : advance minimizer settings p = .ok a) :
    ∃ x slope, minimizer p.lagrangian.value p.lagrangian.gradient p.point = .ok (x, slope) ∧
      ((x.isFinite = false ∧ a = .broken { p with iterations := p.iterations + 1 }) ∨
        (x.isFinite = true ∧ ∃ objective violation,
          p.lagrangian.problem.objective x = .ok objective ∧
          p.lagrangian.maxViolation x = .ok violation ∧
          (((Scalar.isFinite objective && Scalar.isFinite violation) = false ∧
              a = .broken
                { p with point := x, objective, violation, iterations := p.iterations + 1 }) ∨
            ((Scalar.isFinite objective && Scalar.isFinite violation) = true ∧
              ∃ updated snapshot, p.lagrangian.updateMultipliers x = .ok updated ∧
                snapshot =
                  { iteration := p.iterations + 1, objective, violation,
                    gradientNorm := slope.norm, penalty := p.lagrangian.penalty } ∧
                a = .moved
                  { p with
                    point := x, objective, violation, iterations := p.iterations + 1,
                    lagrangian := updated,
                    history :=
                      if settings.recordHistory then p.history ++ [snapshot] else p.history }
                  snapshot)))) := by
  simp only [advance, bind_eq_ok] at h
  obtain ⟨⟨x, slope⟩, hminimizer, h⟩ := h
  refine ⟨x, slope, hminimizer, ?_⟩
  cases hx : x.isFinite with
  | false =>
      simp only [hx, Bool.not_false, if_true, pure_eq_ok] at h
      exact Or.inl ⟨rfl, h.symm⟩
  | true =>
      simp only [hx, Bool.not_true, Bool.false_eq_true, if_false, bind_eq_ok] at h
      obtain ⟨objective, hobjective, violation, hviolation, h⟩ := h
      refine Or.inr ⟨rfl, objective, violation, hobjective, hviolation, ?_⟩
      cases hfinite : (Scalar.isFinite objective && Scalar.isFinite violation) with
      | false =>
          simp only [hfinite, Bool.not_false, if_true, pure_eq_ok] at h
          exact Or.inl ⟨rfl, h.symm⟩
      | true =>
          simp only [hfinite, Bool.not_true, Bool.false_eq_true, if_false, bind_eq_ok,
            pure_eq_ok] at h
          obtain ⟨updated, hupdated, h⟩ := h
          exact Or.inr ⟨rfl, updated, _, hupdated, rfl, h.symm⟩

/-- What is known of an iteration from `p` that moved the multipliers. -/
structure Moves (minimizer : Minimizer α) (p q : Progress α) (snapshot : Snapshot α)
    (slope : Vec α) : Prop where
  found : minimizer p.lagrangian.value p.lagrangian.gradient p.point = .ok (q.point, slope)
  objective : p.lagrangian.problem.objective q.point = .ok q.objective
  violation : p.lagrangian.maxViolation q.point = .ok q.violation
  updated : p.lagrangian.updateMultipliers q.point = .ok q.lagrangian
  iterations : q.iterations = p.iterations + 1
  previous : q.previous = p.previous
  gradientNorm : snapshot.gradientNorm = slope.norm

theorem advance_moved {p q : Progress α} {snapshot : Snapshot α}
    (h : advance minimizer settings p = .ok (.moved q snapshot)) :
    ∃ slope, Moves minimizer p q snapshot slope := by
  obtain ⟨x, slope, hminimizer, ⟨-, hbroken⟩ | ⟨-, objective, violation, hobjective, hviolation,
    ⟨-, hbroken⟩ | ⟨-, updated, shown, hupdated, rfl, hmoved⟩⟩⟩ := advance_cases h
  · cases hbroken
  · cases hbroken
  · cases hmoved
    exact ⟨slope, hminimizer, hobjective, hviolation, hupdated, rfl, rfl, rfl⟩

/-- With finite numbers the multipliers move. -/
theorem advance_eq_moved {p : Progress α} {x slope : Vec α} {objective violation : α}
    {updated : Lagrangian α}
    (hfound : minimizer p.lagrangian.value p.lagrangian.gradient p.point = .ok (x, slope))
    (hobjective : p.lagrangian.problem.objective x = .ok objective)
    (hviolation : p.lagrangian.maxViolation x = .ok violation)
    (hupdated : p.lagrangian.updateMultipliers x = .ok updated) (hx : x.isFinite = true)
    (hfinite : (Scalar.isFinite objective && Scalar.isFinite violation) = true) :
    let snapshot : Snapshot α :=
      { iteration := p.iterations + 1, objective, violation, gradientNorm := slope.norm,
        penalty := p.lagrangian.penalty }
    advance minimizer settings p =
      .ok (.moved
        { p with
          point := x, objective, violation, iterations := p.iterations + 1,
          lagrangian := updated,
          history := if settings.recordHistory then p.history ++ [snapshot] else p.history }
        snapshot) := by
  simp only [advance, bind_eq_ok]
  refine ⟨(x, slope), hfound, ?_⟩
  simp only [hx, Bool.not_true, Bool.false_eq_true, if_false, bind_eq_ok]
  refine ⟨objective, hobjective, violation, hviolation, ?_⟩
  simp only [hfinite, Bool.not_true, Bool.false_eq_true, if_false, bind_eq_ok, pure_eq_ok]
  exact ⟨updated, hupdated, rfl⟩

/-- Moved multipliers are judged in one of three ways: the tolerances are met,
a violated constraint has no slope, or neither and the snapshot is shown to
the caller. -/
theorem judge_cases {p : Progress α} {snapshot : Snapshot α} {verdict : Verdict α}
    (h : judge settings interrupt p snapshot = .ok verdict) :
    (verdict = .stop .optimal p ∧
      Scalar.atMost p.violation settings.constraintTolerance = true ∧
      (Scalar.atMost snapshot.gradientNorm settings.gradientTolerance = true ∨
        isStalled settings.tolerance p.previous p.objective = true)) ∨
    (verdict = .stop .numericalError p ∧
      Scalar.atMost p.violation settings.constraintTolerance = false ∧
      Lagrangian.hasDegenerateViolation p.lagrangian.step settings.constraintTolerance
        settings.minDerivative p.point p.lagrangian.problem.constraints = .ok true) ∨
    (verdict = deliver settings interrupt p snapshot ∧
      ((Scalar.atMost p.violation settings.constraintTolerance = true ∧
          ¬ (Scalar.atMost snapshot.gradientNorm settings.gradientTolerance = true ∨
            isStalled settings.tolerance p.previous p.objective = true)) ∨
        (Scalar.atMost p.violation settings.constraintTolerance = false ∧
          Lagrangian.hasDegenerateViolation p.lagrangian.step settings.constraintTolerance
            settings.minDerivative p.point p.lagrangian.problem.constraints = .ok false))) := by
  unfold judge at h
  cases hviolation : Scalar.atMost p.violation settings.constraintTolerance with
  | true =>
      simp only [hviolation, if_true] at h
      split at h
      · next hmet =>
          rw [pure_eq_ok] at h
          rw [Bool.or_eq_true] at hmet
          exact Or.inl ⟨h.symm, rfl, hmet⟩
      · next hunmet =>
          rw [pure_eq_ok] at h
          rw [Bool.or_eq_true] at hunmet
          exact Or.inr (Or.inr ⟨h.symm, Or.inl ⟨rfl, hunmet⟩⟩)
  | false =>
      simp only [hviolation, Bool.false_eq_true, if_false, bind_eq_ok] at h
      obtain ⟨degenerate, hdegenerate, h⟩ := h
      cases degenerate with
      | true =>
          rw [if_pos rfl, pure_eq_ok] at h
          exact Or.inr (Or.inl ⟨h.symm, rfl, hdegenerate⟩)
      | false =>
          simp only [Bool.false_eq_true, if_false, pure_eq_ok] at h
          exact Or.inr (Or.inr ⟨h.symm, Or.inr ⟨rfl, hdegenerate⟩⟩)

/-- An iteration that goes on has moved the multipliers, was not stopped by
the caller and remembers what it measured. -/
theorem iterate_proceed {p next : Progress α}
    (h : iterate minimizer settings interrupt p = .ok (.proceed next)) :
    ∃ q snapshot, advance minimizer settings p = .ok (.moved q snapshot) ∧
      interrupt snapshot = false ∧
      next = { q.shown settings snapshot with previous := some (q.objective, q.violation) } := by
  simp only [iterate, bind_eq_ok] at h
  obtain ⟨a, ha, h⟩ := h
  cases a with
  | broken q =>
      rw [pure_eq_ok] at h
      cases h
  | moved q snapshot =>
      refine ⟨q, snapshot, ha, ?_⟩
      obtain ⟨hstop, -⟩ | ⟨hstop, -⟩ | ⟨hdeliver, -⟩ := judge_cases h
      · cases hstop
      · cases hstop
      · unfold deliver at hdeliver
        split at hdeliver
        · cases hdeliver
        · next hinterrupt =>
            cases hdeliver
            exact ⟨Bool.not_eq_true _ ▸ hinterrupt, rfl⟩

/-- An iteration stops because a number is not finite, or with moved
multipliers for one of the reasons of `judge`. -/
theorem iterate_stop {p last : Progress α} {status : Status}
    (h : iterate minimizer settings interrupt p = .ok (.stop status last)) :
    (status = .numericalError ∧ advance minimizer settings p = .ok (.broken last)) ∨
    ∃ q snapshot, advance minimizer settings p = .ok (.moved q snapshot) ∧
      ((status = .optimal ∧ last = q ∧
          Scalar.atMost q.violation settings.constraintTolerance = true ∧
          (Scalar.atMost snapshot.gradientNorm settings.gradientTolerance = true ∨
            isStalled settings.tolerance q.previous q.objective = true)) ∨
        (status = .numericalError ∧ last = q ∧
          Scalar.atMost q.violation settings.constraintTolerance = false ∧
          Lagrangian.hasDegenerateViolation q.lagrangian.step settings.constraintTolerance
            settings.minDerivative q.point q.lagrangian.problem.constraints = .ok true) ∨
        (status = .interrupted ∧ last = q.shown settings snapshot ∧
          interrupt snapshot = true)) := by
  simp only [iterate, bind_eq_ok] at h
  obtain ⟨a, ha, h⟩ := h
  cases a with
  | broken q =>
      rw [pure_eq_ok] at h
      cases h
      exact Or.inl ⟨rfl, ha⟩
  | moved q snapshot =>
      refine Or.inr ⟨q, snapshot, ha, ?_⟩
      obtain ⟨hstop, hmet⟩ | ⟨hstop, hdegenerate⟩ | ⟨hdeliver, -⟩ := judge_cases h
      · cases hstop
        exact Or.inl ⟨rfl, rfl, hmet⟩
      · cases hstop
        exact Or.inr (Or.inl ⟨rfl, rfl, hdegenerate⟩)
      · unfold deliver at hdeliver
        split at hdeliver
        · next hinterrupt =>
            cases hdeliver
            exact Or.inr (Or.inr ⟨rfl, rfl, hinterrupt⟩)
        · cases hdeliver

end Iteration

section Solve

/-- The state before the first iteration: all multipliers are zero, and the
objective and the violation are those of the start. -/
def Problem.Opens (problem : Problem α) (settings : Settings α) (start : Vec α)
    (p : Progress α) : Prop :=
  ∃ objective violation,
    problem.objective start = .ok objective ∧
    (Lagrangian.start problem settings.differenceStep settings.initialPenalty).maxViolation start =
      .ok violation ∧
    p =
      { lagrangian := Lagrangian.start problem settings.differenceStep settings.initialPenalty,
        point := start, objective, violation }

theorem Problem.Opens.unique {problem : Problem α} {settings : Settings α} {start : Vec α}
    {p q : Progress α} (hp : problem.Opens settings start p)
    (hq : problem.Opens settings start q) : p = q := by
  obtain ⟨_, _, hobjective, hviolation, rfl⟩ := hp
  obtain ⟨_, _, hobjective', hviolation', rfl⟩ := hq
  rw [hobjective] at hobjective'
  rw [hviolation] at hviolation'
  cases hobjective'
  cases hviolation'
  rfl

/-- The states of a solve between two of its iterations. -/
inductive Problem.Visits (problem : Problem α) (minimizer : Minimizer α) (settings : Settings α)
    (start : Vec α) (interrupt : Snapshot α → Bool) : Progress α → Prop where
  | opening {p : Progress α} : problem.Opens settings start p →
      Scalar.isFinite p.objective = true → Visits problem minimizer settings start interrupt p
  | proceed {p q : Progress α} : Visits problem minimizer settings start interrupt p →
      iterate minimizer settings interrupt p = .ok (.proceed q) →
      Visits problem minimizer settings start interrupt q

variable {problem : Problem α} {minimizer : Minimizer α} {settings : Settings α} {start : Vec α}
  {interrupt : Snapshot α → Bool}

theorem iterations_of_proceed {p next : Progress α}
    (h : iterate minimizer settings interrupt p = .ok (.proceed next)) :
    next.iterations = p.iterations + 1 := by
  obtain ⟨q, snapshot, hadvance, -, rfl⟩ := iterate_proceed h
  obtain ⟨slope, hmoves⟩ := advance_moved hadvance
  exact hmoves.iterations

/-- From a visited state, a budget of iterations is used up in a visited
state, or the iteration from a visited state stops the solve before. -/
theorem run_cases {budget : Nat} {p last : Progress α} {status : Status}
    (hvisits : problem.Visits minimizer settings start interrupt p)
    (h : run minimizer settings interrupt budget p = .ok (status, last)) :
    (status = .maxIterations ∧ problem.Visits minimizer settings start interrupt last ∧
        last.iterations = p.iterations + budget) ∨
      ∃ q, problem.Visits minimizer settings start interrupt q ∧
        q.iterations < p.iterations + budget ∧
        iterate minimizer settings interrupt q = .ok (.stop status last) := by
  induction budget generalizing p with
  | zero =>
      cases h
      exact Or.inl ⟨rfl, hvisits, rfl⟩
  | succ budget ih =>
      simp only [run, bind_eq_ok] at h
      obtain ⟨verdict, hverdict, h⟩ := h
      cases verdict with
      | proceed q =>
          have hiterations := iterations_of_proceed hverdict
          have htotal : q.iterations + budget = p.iterations + (budget + 1) := by omega
          rw [← htotal]
          exact ih (hvisits.proceed hverdict) h
      | stop status' q =>
          rw [pure_eq_ok] at h
          cases h
          exact Or.inr ⟨p, hvisits, by omega, hverdict⟩

/-- A solve ends at a start with an objective that is not finite, in a visited
state when the budget is used up, or by an iteration from a visited state. -/
theorem optimize_cases {outcome : Outcome α}
    (h : problem.optimize minimizer settings start interrupt = .ok outcome) :
    ∃ status last, outcome = last.outcome status ∧
      ((status = .numericalError ∧ problem.Opens settings start last ∧
          Scalar.isFinite last.objective = false) ∨
        (status = .maxIterations ∧ problem.Visits minimizer settings start interrupt last ∧
          last.iterations = settings.maxIterations) ∨
        ∃ q, problem.Visits minimizer settings start interrupt q ∧
          q.iterations < settings.maxIterations ∧
          iterate minimizer settings interrupt q = .ok (.stop status last)) := by
  have hsolve : problem.solve minimizer settings start interrupt = .ok outcome := by
    simp only [Problem.optimize] at h
    split at h
    · obtain ⟨_, hthrow, -⟩ := bind_eq_ok.mp h
      exact absurd hthrow throw_ne_ok
    · split at h
      · obtain ⟨_, hthrow, -⟩ := bind_eq_ok.mp h
        exact absurd hthrow throw_ne_ok
      · exact h
  simp only [Problem.solve, bind_eq_ok] at hsolve
  obtain ⟨objective, hobjective, violation, hviolation, h⟩ := hsolve
  have hopens : problem.Opens settings start
      { lagrangian := Lagrangian.start problem settings.differenceStep settings.initialPenalty,
        point := start, objective, violation } :=
    ⟨objective, violation, hobjective, hviolation, rfl⟩
  cases hfinite : Scalar.isFinite objective with
  | false =>
      simp only [hfinite, Bool.not_false, if_true, pure_eq_ok] at h
      exact ⟨.numericalError, _, h.symm, Or.inl ⟨rfl, hopens, hfinite⟩⟩
  | true =>
      simp only [hfinite, Bool.not_true, Bool.false_eq_true, if_false, bind_eq_ok,
        pure_eq_ok] at h
      obtain ⟨⟨status, last⟩, hrun, h⟩ := h
      have hcases := run_cases (.opening hopens hfinite) hrun
      simp only [Nat.zero_add] at hcases
      exact ⟨status, last, h.symm, Or.inr hcases⟩

theorem Problem.Visits.start_finite {p : Progress α}
    (h : problem.Visits minimizer settings start interrupt p) :
    ¬ ∃ v, problem.objective start = .ok v ∧ Scalar.isFinite v = false := by
  induction h with
  | opening hopens hfinite =>
      obtain ⟨objective, _, hobjective, -, rfl⟩ := hopens
      rintro ⟨v, hv, hinfinite⟩
      rw [hobjective] at hv
      cases hv
      rw [hfinite] at hinfinite
      cases hinfinite
  | proceed _ _ ih => exact ih

/-- An objective that is not finite at the start is reported. -/
theorem numericalError_of_start {outcome : Outcome α}
    (h : problem.optimize minimizer settings start interrupt = .ok outcome)
    (hinfinite : ∃ v, problem.objective start = .ok v ∧ Scalar.isFinite v = false) :
    outcome.status = .numericalError := by
  obtain ⟨status, last, rfl, ⟨rfl, -⟩ | ⟨-, hvisits, -⟩ | ⟨q, hvisits, -⟩⟩ := optimize_cases h
  · rfl
  · exact absurd hinfinite hvisits.start_finite
  · exact absurd hinfinite hvisits.start_finite

/-- A run from the opening state is what an optimization reports. -/
theorem optimize_eq_of_run {p last : Progress α} {status : Status}
    (hstart : start.toList.isEmpty = false) (hfinite : start.isFinite = true)
    (hopens : problem.Opens settings start p) (hobjective : Scalar.isFinite p.objective = true)
    (hrun : run minimizer settings interrupt settings.maxIterations p = .ok (status, last)) :
    problem.optimize minimizer settings start interrupt = .ok (last.outcome status) := by
  obtain ⟨objective, violation, hvalue, hviolation, rfl⟩ := hopens
  have hsolve : problem.solve minimizer settings start interrupt = .ok (last.outcome status) := by
    simp only [Problem.solve, bind_eq_ok]
    refine ⟨objective, hvalue, violation, hviolation, ?_⟩
    simp only [hobjective, Bool.not_true, Bool.false_eq_true, if_false, bind_eq_ok, pure_eq_ok]
    exact ⟨_, hrun, rfl⟩
  simp only [Problem.optimize, hstart, hfinite, Bool.not_true, Bool.false_eq_true, if_false]
  exact hsolve

end Solve

end Optima
