import Optima.Optimizer.Decision
import Optima.Proofs.Constraint.Violation
import Optima.Proofs.Scalar.Binary64
import Optima.Proofs.Solver.Run

/-!
What a solve reports is true of the solution it reports, for every minimizer and on every way a
solve can end. The invariant is that the objective and the violation of a state are those at its
point: an iteration changes the three of them together or not at all. An optimal outcome satisfies
every constraint and has passed the test of the gradient or the test of the objective in its last
iteration.
-/

namespace Optima

variable {α : Type} [Scalar α] {problem : Problem α} {minimizer : Minimizer α}
  {settings : Settings α} {start : Vec α} {interrupt : Snapshot α → Bool}

theorem Lagrangian.maxViolation_eq_ok {L : Lagrangian α} {x : Vec α} {v : α} :
    L.maxViolation x = .ok v ↔ ∃ r, L.problem.residuals x = .ok r ∧ r.worst = v := by
  simp only [Lagrangian.maxViolation, bind_eq_ok, pure_eq_ok]

theorem Lagrangian.updateMultipliers_eq_ok {L updated : Lagrangian α} {x : Vec α} :
    L.updateMultipliers x = .ok updated ↔
      ∃ r, L.problem.residuals x = .ok r ∧ { L with multipliers := L.shifted r } = updated := by
  simp only [Lagrangian.updateMultipliers, bind_eq_ok, pure_eq_ok]

/-- The numbers of a state were measured at its point. -/
structure Progress.Measured (problem : Problem α) (p : Progress α) : Prop where
  problem_eq : p.lagrangian.problem = problem
  objective : problem.objective p.point = .ok p.objective
  violation : ∃ r, problem.residuals p.point = .ok r ∧ r.worst = p.violation

theorem Problem.Opens.measured {p : Progress α} (h : problem.Opens settings start p) :
    p.Measured problem := by
  obtain ⟨objective, violation, hobjective, hviolation, rfl⟩ := h
  exact ⟨rfl, hobjective, Lagrangian.maxViolation_eq_ok.mp hviolation⟩

theorem Progress.Measured.broken {p q : Progress α} (hp : p.Measured problem)
    (h : advance minimizer settings p = .ok (.broken q)) : q.Measured problem := by
  obtain ⟨problem_eq, hobjective, hviolation⟩ := hp
  subst problem_eq
  obtain ⟨x, slope, -, ⟨-, hkept⟩ | ⟨-, objective, violation, hobjective', hviolation',
    ⟨-, htaken⟩ | ⟨-, updated, snapshot, -, -, hmoved⟩⟩⟩ := advance_cases h
  · cases hkept
    exact ⟨rfl, hobjective, hviolation⟩
  · cases htaken
    exact ⟨rfl, hobjective', Lagrangian.maxViolation_eq_ok.mp hviolation'⟩
  · cases hmoved

theorem Progress.Measured.moved {p q : Progress α} {snapshot : Snapshot α}
    (hp : p.Measured problem)
    (h : advance minimizer settings p = .ok (.moved q snapshot)) : q.Measured problem := by
  obtain ⟨slope, hmoves⟩ := advance_moved h
  obtain ⟨r, -, hupdated⟩ := Lagrangian.updateMultipliers_eq_ok.mp hmoves.updated
  have hviolation := Lagrangian.maxViolation_eq_ok.mp hmoves.violation
  have hobjective := hmoves.objective
  rw [hp.problem_eq] at hviolation hobjective
  refine ⟨?_, hobjective, hviolation⟩
  rw [← hupdated]
  exact hp.problem_eq

/-- The previous numbers of a visited state are its own: they are what the
last iteration measured. Before the first iteration there are none. -/
def Progress.Remembers (p : Progress α) : Prop :=
  (p.iterations = 0 ∧ p.previous = none) ∨
    (1 ≤ p.iterations ∧ p.previous = some (p.objective, p.violation))

/-- The numbers of a visited state belong to its point. -/
theorem Problem.Visits.measured {p : Progress α}
    (h : problem.Visits minimizer settings start interrupt p) :
    p.Measured problem ∧ p.Remembers := by
  induction h with
  | opening hopens _ =>
      refine ⟨hopens.measured, ?_⟩
      obtain ⟨_, _, -, -, rfl⟩ := hopens
      exact Or.inl ⟨rfl, rfl⟩
  | proceed _ hiterate ih =>
      obtain ⟨q, snapshot, hadvance, -, rfl⟩ := iterate_proceed hiterate
      have hq := ih.1.moved hadvance
      obtain ⟨slope, hmoves⟩ := advance_moved hadvance
      refine ⟨⟨hq.problem_eq, hq.objective, hq.violation⟩, Or.inr ⟨?_, rfl⟩⟩
      change 1 ≤ q.iterations
      rw [hmoves.iterations]
      omega

/-- However a solve ends, its last state was measured. -/
theorem measured_of_optimize {outcome : Outcome α}
    (h : problem.optimize minimizer settings start interrupt = .ok outcome) :
    problem.objective outcome.solution = .ok outcome.objective ∧
      ∃ r, problem.residuals outcome.solution = .ok r ∧ r.worst = outcome.violation := by
  have hmeasured : ∃ (status : Status) (last : Progress α),
      outcome = last.outcome status ∧ last.Measured problem := by
    obtain ⟨status, last, rfl, ⟨-, hopens, -⟩ | ⟨-, hvisits, -⟩ | ⟨q, hvisits, -, hstop⟩⟩ :=
      optimize_cases h
    · exact ⟨status, last, rfl, hopens.measured⟩
    · exact ⟨status, last, rfl, hvisits.measured.1⟩
    · refine ⟨status, last, rfl, ?_⟩
      obtain ⟨-, hbroken⟩ | ⟨q', snapshot, hmoved, ⟨-, rfl, -⟩ | ⟨-, rfl, -⟩ | ⟨-, rfl, -⟩⟩ :=
        iterate_stop hstop
      · exact hvisits.measured.1.broken hbroken
      · exact hvisits.measured.1.moved hmoved
      · exact hvisits.measured.1.moved hmoved
      · have hq' := hvisits.measured.1.moved hmoved
        exact ⟨hq'.problem_eq, hq'.objective, hq'.violation⟩
  obtain ⟨status, last, rfl, hlast⟩ := hmeasured
  exact ⟨hlast.objective, hlast.violation⟩

/-- An optimal outcome was found by the minimizer from a visited state, and
its last iteration passed both the test of the violation and one of the other
two tests. The test of the objective compares with the point before. -/
theorem last_iteration_of_optimal {outcome : Outcome α}
    (h : problem.optimize minimizer settings start interrupt = .ok outcome)
    (hoptimal : outcome.status = .optimal) :
    ∃ p q snapshot, problem.Visits minimizer settings start interrupt p ∧
      advance minimizer settings p = .ok (.moved q snapshot) ∧
      outcome = q.outcome .optimal ∧
      Scalar.atMost outcome.violation settings.constraintTolerance = true ∧
      (Scalar.atMost snapshot.gradientNorm settings.gradientTolerance = true ∨
        isStalled settings.tolerance q.previous q.objective = true) := by
  obtain ⟨status, last, rfl, ⟨rfl, -⟩ | ⟨rfl, -⟩ | ⟨p, hvisits, -, hstop⟩⟩ := optimize_cases h
  · cases hoptimal
  · cases hoptimal
  · obtain ⟨rfl, -⟩ | ⟨q, snapshot, hmoved, ⟨rfl, rfl, hwithin, htests⟩ | ⟨rfl, -⟩ | ⟨rfl, -⟩⟩ :=
      iterate_stop hstop
    · cases hoptimal
    · exact ⟨p, last, snapshot, hvisits, hmoved, rfl, hwithin, htests⟩
    · cases hoptimal
    · cases hoptimal

/-- The objective stalls only in the second iteration or a later one, and it
is compared with the objective at the point that the iteration started from. -/
theorem Problem.Visits.stalled {p q : Progress α} {snapshot : Snapshot α}
    (hvisits : problem.Visits minimizer settings start interrupt p)
    (hmoved : advance minimizer settings p = .ok (.moved q snapshot))
    (hstalled : isStalled settings.tolerance q.previous q.objective = true) :
    2 ≤ q.iterations ∧ ∃ old, problem.objective p.point = .ok old ∧
      Scalar.atMost (Scalar.magnitude (q.objective - old))
        (settings.tolerance * Scalar.larger 1 (Scalar.magnitude old)) = true := by
  obtain ⟨slope, hmoves⟩ := advance_moved hmoved
  obtain ⟨hmeasured, ⟨-, hnone⟩ | ⟨hiterations, hprevious⟩⟩ := hvisits.measured
  · rw [hmoves.previous, hnone] at hstalled
    cases hstalled
  · rw [hmoves.previous, hprevious] at hstalled
    refine ⟨?_, p.objective, hmeasured.objective, hstalled⟩
    rw [hmoves.iterations]
    omega

/-- The reported objective and violation are those at the reported solution.
If no residual there is undefined, the violation is the largest violation of
the flat list of constraints, and an optimal outcome satisfies all of them and
ended with a gradient or a change of the objective within the tolerances. -/
theorem reported_outcome_holds_at_solution {minimizer : Minimizer Float}
    {settings : Settings Float} {objective : Vec Float → Except Fault Float}
    {gradient : Option (Vec Float → Except Fault (Vec Float))} {given : Datum}
    {items : Nested (Item Float)} {sense : Sense} {interrupt : Snapshot Float → Bool}
    {outcome : Outcome Float}
    (h : optimizeDecisionWith minimizer settings objective gradient given items sense interrupt =
      .ok outcome) :
    ∃ start constraints, Check.array given "initial_state" = .ok start ∧
      flattenConstraints items = .ok constraints ∧
      let problem : Problem Float := { objective, gradient, constraints, weight := sense.sign }
      objective outcome.solution = .ok outcome.objective ∧
      (∃ r, problem.residuals outcome.solution = .ok r ∧ r.worst = outcome.violation) ∧
      ((∀ c ∈ constraints, ∀ v, c.residual outcome.solution = .ok v → v.isNaN = false) →
        (∃ v, Constraint.maxViolation constraints outcome.solution = .ok v ∧
          (outcome.violation == v) = true) ∧
        (outcome.status = .optimal →
          Constraint.allSatisfied settings.constraintTolerance outcome.solution constraints =
            .ok true ∧
          ∃ p slope, problem.Visits minimizer settings start interrupt p ∧
            minimizer p.lagrangian.value p.lagrangian.gradient p.point =
              .ok (outcome.solution, slope) ∧
            outcome.iterations = p.iterations + 1 ∧
            (slope.norm ≤ settings.gradientTolerance ∨
              (2 ≤ outcome.iterations ∧ ∃ old, objective p.point = .ok old ∧
                (outcome.objective - old).abs ≤
                  settings.tolerance * Scalar.larger 1.0 old.abs)))) := by
  simp only [optimizeDecisionWith, bind_eq_ok] at h
  obtain ⟨start, hstart, constraints, hconstraints, h⟩ := h
  obtain ⟨hobjective, r, hresiduals, hworst⟩ := measured_of_optimize h
  refine ⟨start, constraints, hstart, hconstraints, hobjective, ⟨r, hresiduals, hworst⟩, ?_⟩
  intro hnumbers
  have hdefined : ∀ c ∈ constraints, ∀ v, c.residual outcome.solution = .ok v →
      Scalar.Defined v := by
    intro c hc v hv
    exact (Binary64.defined_iff v).mpr (hnumbers c hc v hv)
  refine ⟨?_, ?_⟩
  · rw [← hworst]
    exact Problem.worst_same_maxViolation hresiduals hdefined
  · intro hoptimal
    obtain ⟨p, q, snapshot, hvisits, hmoved, rfl, hwithin, htests⟩ :=
      last_iteration_of_optimal h hoptimal
    obtain ⟨slope, hmoves⟩ := advance_moved hmoved
    rw [← hworst] at hwithin
    refine ⟨Problem.allSatisfied_of_worst hresiduals hdefined hwithin, p, slope, hvisits,
      hmoves.found, hmoves.iterations, ?_⟩
    rcases htests with hgradient | hstalled
    · rw [hmoves.gradientNorm] at hgradient
      exact Or.inl (of_decide_eq_true hgradient)
    · obtain ⟨htwo, old, hold, hchange⟩ := hvisits.stalled hmoved hstalled
      exact Or.inr ⟨htwo, old, hold, of_decide_eq_true hchange⟩

def firstIsOne : Constraint Float where
  relation := .equality
  residual x := do return (← x.get 0) - 1.0

def firstAtMostTwo : Constraint Float where
  relation := .inequality
  residual x := do return (← x.get 0) - 2.0

/-- A solve whose minimizer returns the same point with the same slope again
and again. It ends in the second iteration, since the objective stalls. -/
def stalledSolve : Except Fault (Outcome Float) :=
  optimizeDecisionWith (fun _ _ _ => .ok (⟨[1.0]⟩, ⟨[1.0]⟩))
    { maxIterations := 100, tolerance := 1e-6, constraintTolerance := 1e-6,
      gradientTolerance := 1e-6, maxInnerIterations := 500, initialPenalty := 10.0,
      penaltyIncrease := 10.0, maxPenalty := 1e6, minDerivative := 1e-12, differenceStep := 1e-6,
      recordHistory := false }
    (fun x => x.get 0) none (.list [.real 0.0])
    (.group [.leaf (.decision firstIsOne), .group [.leaf (.decision firstAtMostTwo)]])
    .minimize (fun _ => false)

theorem stalledSolve_holds_at_solution :
    ∃ outcome, stalledSolve = .ok outcome ∧ outcome.status = .optimal ∧
      outcome.iterations = 2 ∧ outcome.solution.get 0 = .ok outcome.objective ∧
      (∃ v, Constraint.maxViolation [firstIsOne, firstAtMostTwo] outcome.solution = .ok v ∧
        (outcome.violation == v) = true) ∧
      Constraint.allSatisfied 1e-6 outcome.solution [firstIsOne, firstAtMostTwo] = .ok true := by
  obtain ⟨outcome, hsolve, hcheck⟩ : ∃ outcome, stalledSolve = .ok outcome ∧
      decide (outcome.status = .optimal ∧ outcome.iterations = 2 ∧
        outcome.solution.toList = [1.0]) = true :=
    exists_ok_of_any (by decide +kernel)
  obtain ⟨hoptimal, htwo, hsolution⟩ := of_decide_eq_true hcheck
  have hpoint : outcome.solution = ⟨[1.0]⟩ := congrArg Vec.mk hsolution
  obtain ⟨start, constraints, -, hconstraints, hobjective, -, hrest⟩ :=
    reported_outcome_holds_at_solution hsolve
  obtain rfl : [firstIsOne, firstAtMostTwo] = constraints := Except.ok.inj hconstraints
  obtain ⟨hviolation, hoptimality⟩ := hrest (by
    intro c hc v hv
    rw [hpoint] at hv
    simp only [List.mem_cons, List.not_mem_nil, or_false] at hc
    rcases hc with rfl | rfl
    · cases hv
      decide +kernel
    · cases hv
      decide +kernel)
  exact ⟨outcome, hsolve, hoptimal, htwo, hobjective, hviolation, (hoptimality hoptimal).1⟩

end Optima
