import Optima.Proofs.Robust.Converged
import Optima.Proofs.Solver.CheckedSettings

/-!
When a robust optimization returns. Every round starts a solve from the decision so far and its
worst case. The decision is finite after every round, but nothing is known of the worst case: if it
is not finite, the start of the solve is refused, and the optimization ends with this fault. Apart
from that every round returns, as long as the objective and the residuals have values and points can
be sampled.
-/

namespace Optima

/-- At least one point is asked for, and the settings of the solves are steady. -/
theorem RobustSettings.steady_of_ofFields {fields : List (String × Datum)}
    {settings : RobustSettings Float} (h : RobustSettings.ofFields fields = .ok settings) :
    0 < settings.samples ∧ settings.solver.Steady := by
  simp only [RobustSettings.ofFields, bind_eq_ok, pure_eq_ok] at h
  obtain ⟨samples, hsamples, _, -, _, -, solver, hsolver, rfl⟩ := h
  exact ⟨Check.count_pos hsamples, (Settings.readFrom_of_ofFields hsolver).steady⟩

namespace RobustProblem

variable {σ : Type} {problem : RobustProblem Float} {minimizer : Minimizer Float}
  {settings : RobustSettings Float} {sample : Nat → Draw σ (List (Vec Float))}
  {x nominal : Vec Float} {state : σ} {p : RobustProgress σ Float}

/-- A further round is due and would start from a worst case that is not finite. -/
structure Strays (problem : RobustProblem Float) (minimizer : Minimizer Float)
    (settings : RobustSettings Float) (sample : Nat → Draw σ (List (Vec Float))) (x : Vec Float)
    (state : σ) (p : RobustProgress σ Float) : Prop where
  visited : problem.Visits minimizer settings sample x state p
  due : p.rounds < settings.rounds
  worst : ∃ w q, worstCase problem.sense problem.objective p.decision p.workingSet = .ok (w, q) ∧
    w.isFinite = false

/-- A worst case that is not finite ends the optimization with a fault. -/
theorem Strays.optimize_eq (h : problem.Strays minimizer settings sample x state p) :
    problem.optimize minimizer settings sample nominal x state =
      .error (.misuse (.notFinite "initial_state")) := by
  obtain ⟨w, q, hworst, hw⟩ := h.worst
  have hround : problem.round minimizer settings sample p =
      .error (.misuse (.notFinite "initial_state")) := by
    simp only [round, solveOver_refuses hworst hw]
    rfl
  have hdue := h.due
  obtain ⟨budget, hleft⟩ : ∃ budget, settings.rounds - p.rounds = budget + 1 :=
    Nat.exists_eq_succ_of_ne_zero (by omega)
  rw [h.visited.optimize_eq hdue.le, hleft]
  simp only [run, hround]
  rfl

theorem visits_of_sample {points : List (Vec Float)} {state' : σ}
    (hsample : sample settings.samples state = .ok (points, state')) :
    problem.Visits minimizer settings sample x state
      { decision := x, workingSet := Vec.distinct points, rounds := 0, state := state' } :=
  .opening (begin_eq_ok.mpr ⟨points, state', hsample, rfl⟩)

/-- A worst case over the first points that is not finite strays at once. -/
theorem strays_of_first (hrounds : 0 < settings.rounds) {points : List (Vec Float)} {state' : σ}
    (hsample : sample settings.samples state = .ok (points, state')) {w : Float} {q : Vec Float}
    (hworst : worstCase problem.sense problem.objective x (Vec.distinct points) = .ok (w, q))
    (hw : w.isFinite = false) :
    ∃ p, problem.Strays minimizer settings sample x state p :=
  ⟨_, visits_of_sample hsample, hrounds, w, q, hworst, hw⟩

theorem newcomers_returns (threshold : Float) (known : List (Vec Float)) {fresh : List (Vec Float)}
    (h : ∀ q ∈ fresh, ∃ v, problem.objective x q = .ok v) :
    ∃ found, problem.newcomers x threshold known fresh = .ok found := by
  refine ⟨_, filterM_eq_ok.mpr ⟨?_, rfl⟩⟩
  intro q hq
  obtain ⟨v, hv⟩ := h q hq
  split
  · exact ⟨false, rfl⟩
  · exact ⟨_, bind_eq_ok.mpr ⟨v, hv, rfl⟩⟩

section Values

variable {U : Vec Float → Prop}
  (hsample : (sample settings.samples).Yields fun points => points ≠ [] ∧ ∀ q ∈ points, U q)
  (hobjective : ∀ y q, y.size = x.size → U q ∨ q = nominal → ∃ v, problem.objective y q = .ok v)

include hsample hobjective

/-- What is reported returns, at every decision of the dimension and over the
points of a visited state. -/
theorem Visits.conclude_responds (h : problem.Visits minimizer settings sample x state p)
    (status : Status) {last : RobustProgress σ Float} (hpoints : last.workingSet = p.workingSet)
    (hsize : last.decision.size = x.size) :
    ∃ outcome, problem.conclude nominal status last = .ok outcome := by
  obtain ⟨hne, hmembers⟩ := h.points hsample
  rw [← hpoints] at hne hmembers
  obtain ⟨w, parameters, hworst⟩ := worstCase_succeeds problem.sense hne
    fun q hq => hobjective last.decision q hsize (Or.inl (hmembers q hq))
  obtain ⟨value, hvalue⟩ := hobjective last.decision nominal hsize (Or.inr rfl)
  exact ⟨_, conclude_eq_ok.mpr ⟨w, parameters, value, hworst, hvalue, rfl⟩⟩

variable (hsettings : settings.solver.Steady) (hserves : minimizer.Serves)
  (hconstraints : ∀ c ∈ problem.constraints, ∀ y, y.size = x.size → ∃ r, c.residual y = .ok r)

include hsettings hserves hconstraints

/-- From a finite decision with a finite worst case a round returns. -/
theorem Visits.round_responds (h : problem.Visits minimizer settings sample x state p)
    (hfinite : p.decision.isFinite = true)
    (hworst : ∀ w q, worstCase problem.sense problem.objective p.decision p.workingSet =
      .ok (w, q) → w.isFinite = true) :
    ∃ verdict, problem.round minimizer settings sample p = .ok verdict := by
  obtain ⟨hne, hmembers⟩ := h.points hsample
  have hsize := h.size_eq
  have hvalues : ∀ y, y.size = p.decision.size → ∀ q ∈ p.workingSet,
      ∃ v, problem.objective y q = .ok v :=
    fun y hy q hq => hobjective y q (hy.trans hsize) (Or.inl (hmembers q hq))
  obtain ⟨w, q, hw⟩ := worstCase_succeeds problem.sense hne (hvalues p.decision rfl)
  obtain ⟨solved, hsolved⟩ := solveOver_responds hsettings hserves (hsize ▸ hconstraints) hvalues hw
    hfinite (hworst w q hw)
  cases hsolution : solved.status.hasSolution with
  | false => exact ⟨_, round_eq_ok.mpr ⟨solved, hsolved, Or.inl ⟨hsolution, rfl⟩⟩⟩
  | true =>
      have hnext := (decision_of_solveOver hsolved).1
      obtain ⟨worst, parameters, hcase⟩ := worstCase_succeeds problem.sense hne (hvalues _ hnext)
      obtain ⟨fresh, state', hfresh, -, hmembers'⟩ := hsample p.state
      obtain ⟨found, hfound⟩ := newcomers_returns (problem.threshold settings.tolerance worst)
        p.workingSet fun q hq => hobjective _ q (hnext.trans hsize) (Or.inl (hmembers' q hq))
      exact ⟨_, round_eq_ok.mpr ⟨solved, hsolved, Or.inr ⟨hsolution, _, worst, parameters, fresh,
        state', found, rfl, hcase, hfresh, hfound, rfl⟩⟩⟩

variable (hfinite : x.isFinite = true)
  (hbounded : ¬ ∃ p, problem.Strays minimizer settings sample x state p)

include hfinite hbounded

/-- Rounds end with a status, as long as the worst case at their start is finite. -/
theorem Visits.run_responds (h : problem.Visits minimizer settings sample x state p) {budget : Nat}
    (hbudget : p.rounds + budget = settings.rounds) :
    ∃ status last, problem.run minimizer settings sample budget p = .ok (status, last) := by
  induction budget generalizing p with
  | zero => exact ⟨_, _, rfl⟩
  | succ budget ih =>
      have hdecision : p.decision.isFinite = true := by
        obtain ⟨-, hstart⟩ | ⟨q, _, _, _, _, hrounds, -⟩ := h.origin
        · rw [hstart]
          exact hfinite
        · exact h.isFinite (by omega)
      have hworst : ∀ w q, worstCase problem.sense problem.objective p.decision p.workingSet =
          .ok (w, q) → w.isFinite = true := by
        intro w q hw
        by_contra hno
        rw [Bool.not_eq_true] at hno
        exact hbounded ⟨p, h, by omega, w, q, hw, hno⟩
      obtain ⟨verdict, hround⟩ :=
        h.round_responds hsample hobjective hsettings hserves hconstraints hdecision hworst
      simp only [run, hround, bind, Except.bind]
      cases verdict with
      | stop status q => exact ⟨status, q, rfl⟩
      | proceed q =>
          obtain ⟨_, _, _, _, _, -, -, -, -, -, -, -, -, hrounds⟩ := round_proceed hround
          exact ih (h.proceed hround) (by omega)

/-- As long as no worst case strays, the optimization returns. -/
theorem optimize_responds :
    ∃ outcome, problem.optimize minimizer settings sample nominal x state = .ok outcome := by
  obtain ⟨points, state', hpoints, -⟩ := hsample state
  have hopening : problem.Visits minimizer settings sample x state _ := visits_of_sample hpoints
  obtain ⟨status, last, hrun⟩ := hopening.run_responds hsample hobjective hsettings hserves
    hconstraints hfinite hbounded (Nat.zero_add _)
  have hconclude : ∃ outcome, problem.conclude nominal status last = .ok outcome := by
    obtain ⟨-, hvisits, -⟩ | ⟨q, hvisits, -, hstop⟩ := run_cases hopening hrun
    · exact hvisits.conclude_responds hsample hobjective status rfl hvisits.size_eq
    · obtain ⟨-, hset, solved, hsolved, -, ⟨-, hkept⟩ | ⟨-, hmoved, -⟩⟩ := round_stop hstop
      · exact hvisits.conclude_responds hsample hobjective status hset (hkept ▸ hvisits.size_eq)
      · have hsize := (decision_of_solveOver hsolved).1.trans hvisits.size_eq
        exact hvisits.conclude_responds hsample hobjective status hset (hmoved ▸ hsize)
  obtain ⟨outcome, houtcome⟩ := hconclude
  exact ⟨outcome, optimize_eq_ok.mpr ⟨points, state', hpoints, status, last, hrun, houtcome⟩⟩

end Values

end RobustProblem

end Optima
