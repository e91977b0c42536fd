import Optima.Proofs.Robust.FirstWorst
import Optima.Proofs.Robust.Returns

/-!
Robust optimizations that end with their first round. They do if no sample has a point that differs
from all points of the first one, as with a finite set, which gives all its points every time, or a
box that does not deviate from its nominal point.
-/

namespace Optima.RobustProblem

variable {σ : Type}

section Scalars

variable {α : Type} [Scalar α] {problem : RobustProblem α} {minimizer : Minimizer α}
  {settings : RobustSettings α} {sample : Nat → Draw σ (List (Vec α))} {x nominal : Vec α}
  {state state' : σ} {points : List (Vec α)} {p : RobustProgress σ α}

def SamplesAmong (sample : Nat → Draw σ (List (Vec α))) (count : Nat) (known : List (Vec α)) :
    Prop :=
  ∀ s fresh s', sample count s = .ok (fresh, s') → ∀ q ∈ fresh, ∃ u ∈ known, q.same u = true

/-- A round that samples only known points does not go on. -/
theorem SamplesAmong.round_ne_proceed (h : SamplesAmong sample settings.samples p.workingSet)
    (q : RobustProgress σ α) :
    problem.round minimizer settings sample p ≠ .ok (.proceed q) := by
  intro hround
  obtain ⟨_, _, _, fresh, found, -, -, -, -, hfresh, hfound, hne, -, -⟩ := round_proceed hround
  rw [newcomers_eq_nil fun q hq => Or.inl (h _ _ _ hfresh q hq)] at hfound
  exact hne (Except.ok.inj hfound).symm

variable (hfirst : sample settings.samples state = .ok (points, state'))
  (hamong : SamplesAmong sample settings.samples (Vec.distinct points))

include hfirst hamong

/-- There is no state between rounds but the one before the first round. -/
theorem Visits.eq_opening (h : problem.Visits minimizer settings sample x state p) :
    p = { decision := x, workingSet := Vec.distinct points, rounds := 0, state := state' } := by
  induction h with
  | opening hbegin =>
      obtain ⟨points', state'', hsample, rfl⟩ := begin_eq_ok.mp hbegin
      rw [hfirst] at hsample
      cases hsample
      rfl
  | proceed _ hround ih =>
      subst ih
      exact absurd hround (hamong.round_ne_proceed _)

/-- The first round is the last one, and what it solves is reported. -/
theorem optimize_of_samplesAmong (hrounds : 0 < settings.rounds) {outcome : RobustOutcome α}
    (h : problem.optimize minimizer settings sample nominal x state = .ok outcome) :
    outcome.iterations = 1 ∧ outcome.evaluated = (Vec.distinct points).length ∧
      (∃ solved, problem.solveOver minimizer settings.solver (Vec.distinct points) x = .ok solved ∧
        outcome.status = solved.status ∧
        outcome.solution =
          if solved.status.hasSolution then decisionOf x.size solved.solution else x) ∧
      worstCase problem.sense problem.objective outcome.solution (Vec.distinct points) =
        .ok (outcome.worstObjective, outcome.worstParameters) ∧
      problem.objective outcome.solution nominal = .ok outcome.nominalObjective := by
  obtain ⟨status, last, hconclude, ⟨-, hvisits, hall⟩ | ⟨q, hvisits, -, hstop⟩⟩ := optimize_cases h
  · rw [hvisits.eq_opening hfirst hamong] at hall
    exact absurd hall hrounds.ne
  · rw [hvisits.eq_opening hfirst hamong] at hstop
    obtain ⟨hlast, hset, solved, hsolved, hstatus, hdecision⟩ := round_stop hstop
    obtain ⟨w, parameters, value, hworst, hvalue, rfl⟩ := conclude_eq_ok.mp hconclude
    rw [hset] at hworst
    refine ⟨hlast, congrArg List.length hset, ⟨solved, hsolved, hstatus.symm, ?_⟩, hworst, hvalue⟩
    rcases hdecision with ⟨hno, hkept⟩ | ⟨hyes, hmoved, -⟩
    · rw [hno]
      exact hkept
    · rw [hyes]
      exact hmoved

end Scalars

section Doubles

open Scalar

/-- What an objective has over some parameters: finite values at all finite
decisions of a dimension, and there equal values at equal parameters. -/
structure Measures (objective : Vec Float → Vec Float → Except Fault Float) (dimension : Nat)
    (U : Vec Float → Prop) : Prop where
  finite : ∀ y q, y.size = dimension → y.isFinite = true → U q →
    ∃ v, objective y q = .ok v ∧ v.isFinite = true
  equal : ∀ y p q, y.size = dimension → y.isFinite = true → U p → U q → p.same q = true →
    ∀ v w, objective y p = .ok v → objective y q = .ok w → same v w = true

variable {problem : RobustProblem Float} {minimizer : Minimizer Float}
  {settings : RobustSettings Float} {sample : Nat → Draw σ (List (Vec Float))}
  {x nominal : Vec Float} {state state' : σ} {points : List (Vec Float)} {U : Vec Float → Prop}

/-- The worst case over points without their repetitions is the worst case over
all of them, at the first point that attains it. -/
theorem Measures.worst_of_distinct (h : Measures problem.objective x.size U) {y : Vec Float}
    (hsize : y.size = x.size) (hfinite : y.isFinite = true) (hpoints : ∀ q ∈ points, U q)
    {w : Float} {p : Vec Float}
    (hworst : worstCase problem.sense problem.objective y (Vec.distinct points) = .ok (w, p)) :
    problem.IsWorstCase y points w p ∧
      ∃ before after, points = before ++ p :: after ∧
        ∀ q ∈ before, ∀ v, problem.objective y q = .ok v → same v w = false := by
  have hvalues : ∀ q ∈ points, ∀ v, problem.objective y q = .ok v → v.isFinite = true :=
    fun q hq v hv => isFinite_of_ok (h.finite y q hsize hfinite (hpoints q hq)) hv
  have hdefined : ∀ q ∈ points, ∀ v, problem.objective y q = .ok v → Defined v :=
    fun q hq v hv => Binary64.defined_of_isFinite (hvalues q hq v hv)
  have hall := worstCase_of_distinct
    (fun q hq => (h.finite y q hsize hfinite (hpoints q hq)).imp fun _ hv => hv.1)
    (fun p hp q hq => h.equal y p q hsize hfinite (hpoints p hp) (hpoints q hq)) hdefined hworst
  exact ⟨isWorstCase_of_worstCase hvalues hall, worstCase_first hdefined hall⟩

/-- Whether the solution is taken over or not, the next decision is one to go on with. -/
theorem decision_of_status {known : List (Vec Float)} {solved : Outcome Float}
    (h : problem.solveOver minimizer settings.solver known x = .ok solved) {y : Vec Float}
    (hy : y = if solved.status.hasSolution then decisionOf x.size solved.solution else x) :
    y.size = x.size ∧ y.isFinite = true := by
  subst hy
  split
  · exact decision_of_solveOver h
  · exact ⟨rfl, isFinite_of_solveOver h⟩

/-- If all samples repeat the first one and the objective is finite, there is an
outcome. -/
theorem optimize_responds_of_samplesAmong
    (hsample : (sample settings.samples).Yields fun points => points ≠ [] ∧ ∀ q ∈ points, U q)
    (hamong : ∀ points state', sample settings.samples state = .ok (points, state') →
      SamplesAmong sample settings.samples (Vec.distinct points))
    (hmeasures : Measures problem.objective x.size U)
    (hobjective : ∀ y q, y.size = x.size → U q ∨ q = nominal → ∃ v, problem.objective y q = .ok v)
    (hsettings : settings.solver.Steady) (hserves : minimizer.Serves)
    (hconstraints : ∀ c ∈ problem.constraints, ∀ y, y.size = x.size → ∃ r, c.residual y = .ok r)
    (hfinite : x.isFinite = true) :
    ∃ outcome, problem.optimize minimizer settings sample nominal x state = .ok outcome := by
  apply optimize_responds hsample hobjective hsettings hserves hconstraints hfinite
  rintro ⟨p, hvisits, -, w, q, hworst, hw⟩
  obtain ⟨points, state', hfirst, -, hpoints⟩ := hsample state
  rw [hvisits.eq_opening hfirst (hamong points state' hfirst)] at hworst
  have hvalues : ∀ q ∈ Vec.distinct points, ∀ v, problem.objective x q = .ok v →
      v.isFinite = true := by
    intro q hq v hv
    exact isFinite_of_ok
      (hmeasures.finite x q rfl hfinite (hpoints q (Vec.mem_of_mem_distinct hq))) hv
  have hcase := isWorstCase_of_worstCase hvalues hworst
  rw [hvalues q hcase.mem w hcase.attained] at hw
  cases hw

end Doubles

end Optima.RobustProblem
