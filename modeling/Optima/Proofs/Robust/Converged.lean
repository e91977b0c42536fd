import Optima.Optimizer.Robust
import Optima.Proofs.Random.Yields
import Optima.Proofs.Robust.Rounds
import Optima.Proofs.Robust.Solve
import Optima.Proofs.Scalar.Numbers
import Optima.Proofs.Solver.UniformSettings
import Optima.Proofs.Vector.Distinct

/-!
How a robust optimization ends, on doubles. It ends in one of three ways. A round finds no newcomer:
then the decision of that round is reported, with its worst case over the points that it was solved
for. A round has no solution: then the decision of the round before is reported, with its worst case
over all points, those that joined after it among them. Or the budget is used up, which never counts
as converged. Nothing is asked of the minimizer, and samples may differ from round to round.
-/

namespace Optima

open Scalar Ranked

/-- The value exceeds the worst one by no more than a margin, on the side that hurts. -/
def Sense.WithinMargin (sense : Sense) (margin worst value : Float) : Prop :=
  sense.NoWorse value worst ∨
    match sense with
    | .minimize => ¬ worst + margin < value
    | .maximize => ¬ value < worst - margin

/-- The worst value of a decision over a list of points, and a point that attains it. -/
structure RobustProblem.IsWorstCase (problem : RobustProblem Float) (x : Vec Float)
    (points : List (Vec Float)) (worst : Float) (parameters : Vec Float) : Prop where
  mem : parameters ∈ points
  attained : problem.objective x parameters = .ok worst
  bound : ∀ q ∈ points, ∃ v, problem.objective x q = .ok v ∧ problem.sense.NoWorse v worst

section Settings

/-- There is at least one round, and its solves work with the one tolerance. -/
theorem RobustSettings.of_ofFields {fields : List (String × Datum)}
    {settings : RobustSettings Float} (h : RobustSettings.ofFields fields = .ok settings) :
    0 < settings.rounds ∧ settings.solver.constraintTolerance = settings.tolerance := by
  simp only [RobustSettings.ofFields, bind_eq_ok, pure_eq_ok] at h
  obtain ⟨samples, -, rounds, hrounds, tolerance, htolerance, solver, hsolver, rfl⟩ := h
  have hconstraint := (Settings.readFrom_of_ofFields hsolver).constraintTolerance
  exact ⟨Check.count_pos hrounds, Check.positive_unique hconstraint htolerance⟩

end Settings

namespace RobustProblem

section Solve

variable {problem : RobustProblem Float} {minimizer : Minimizer Float} {settings : Settings Float}
  {points : List (Vec Float)} {x : Vec Float} {solved : Outcome Float}

theorem sign_mul_defined (sense : Sense) {v : Float} (h : Defined v) :
    Defined (sense.sign * v) := by
  cases sense with
  | minimize => exact Binary64.mul_defined (by decide +kernel) (by decide +kernel) h
  | maximize => exact Binary64.mul_defined (by decide +kernel) (by decide +kernel) h

/-- An optimal solve satisfies the constraints. The bounds that it adds to
them have residuals that are numbers, as differences of finite ones. -/
theorem allSatisfied_of_solveOver
    (h : problem.solveOver minimizer settings points x = .ok solved)
    (hoptimal : solved.status = .optimal)
    (hvalues : ∀ q ∈ points, ∀ v,
      problem.objective (decisionOf x.size solved.solution) q = .ok v → v.isFinite = true)
    (hnumbers : ∀ c ∈ problem.constraints, ∀ r,
      c.residual (decisionOf x.size solved.solution) = .ok r → r.isNaN = false) :
    Constraint.allSatisfied settings.constraintTolerance (decisionOf x.size solved.solution)
      problem.constraints = .ok true := by
  obtain ⟨w, p, -, hsolved⟩ := solveOver_eq_ok.mp h
  obtain ⟨hbound, r, hr, hworst⟩ := measured_of_optimize hsolved
  obtain ⟨-, -, -, -, -, -, hwithin, -⟩ := last_iteration_of_optimal hsolved hoptimal
  have hfinite := isFinite_of_optimize hsolved
  have hdefined : ∀ c ∈ (epigraph x.size problem.sense problem.objective problem.constraints
      points).constraints, ∀ v, c.residual solved.solution = .ok v → Defined v := by
    intro c hc v hv
    rcases List.mem_append.mp hc with hc | hc
    · obtain ⟨d, hd, rfl⟩ := List.mem_map.mp hc
      exact (Binary64.defined_iff_isNaN v).mpr (hnumbers d hd v hv)
    · obtain ⟨q, hq, rfl⟩ := List.mem_map.mp hc
      simp only [boundAt, bind_eq_ok, pure_eq_ok] at hv
      obtain ⟨value, hvalue, bound, hget, rfl⟩ := hv
      have hmember := (boundOf_eq_ok hget).2
      have hboundFinite : bound.isFinite = true := List.all_eq_true.mp hfinite bound hmember
      apply sign_mul_defined
      exact Binary64.sub_defined (hvalues q hq value hvalue)
        (Binary64.defined_of_isFinite hboundFinite)
  rw [← hworst] at hwithin
  have hall := Problem.allSatisfied_of_worst hr hdefined hwithin
  apply Constraint.allSatisfied_of_violations
  intro c hc
  exact Constraint.violation_of_allSatisfied hall
    (List.mem_append_left _ (List.mem_map.mpr ⟨c, hc, rfl⟩))

/-- What the fold over the points finds is attained at one of them and exceeded at none. -/
theorem isWorstCase_of_worstCase {w : Float} {p : Vec Float}
    (hfinite : ∀ q ∈ points, ∀ v, problem.objective x q = .ok v → v.isFinite = true)
    (h : worstCase problem.sense problem.objective x points = .ok (w, p)) :
    problem.IsWorstCase x points w p := by
  have hdefined : ∀ q ∈ points, ∀ v, problem.objective x q = .ok v → Defined v :=
    fun q hq v hv => Binary64.defined_of_isFinite (hfinite q hq v hv)
  obtain ⟨hp, hw, hbound⟩ := worstCase_spec hdefined h
  refine ⟨hp, hw, ?_⟩
  intro q hq
  obtain ⟨v, hv, hranks⟩ := hbound q hq
  refine ⟨v, hv, ?_⟩
  have hle {a b : Float} (ha : Defined a) (hb : Defined b) (hrank : rank a ≤ rank b) : a ≤ b :=
    of_decide_eq_true ((atMost_iff a b).mpr ⟨ha, hb, hrank⟩)
  have hvdefined := hdefined q hq v hv
  have hwdefined := hdefined p hp w hw
  cases hsense : problem.sense with
  | minimize =>
      rw [hsense] at hranks
      exact hle hvdefined hwdefined hranks
  | maximize =>
      rw [hsense] at hranks
      exact hle hwdefined hvdefined hranks

theorem isFinite_of_ok {value : Except Fault Float} {v : Float}
    (h : ∃ w, value = .ok w ∧ w.isFinite = true) (hv : value = .ok v) : v.isFinite = true := by
  obtain ⟨w, hw, hfinite⟩ := h
  rw [hv] at hw
  cases hw
  exact hfinite

end Solve

section Ends

variable {σ : Type} {problem : RobustProblem Float} {minimizer : Minimizer Float}
  {settings : RobustSettings Float} {sample : Nat → Draw σ (List (Vec Float))}
  {U : Vec Float → Prop} {x nominal : Vec Float} {state : σ} {p : RobustProgress σ Float}

theorem Visits.size_eq (h : problem.Visits minimizer settings sample x state p) :
    p.decision.size = x.size := by
  induction h with
  | opening hbegin =>
      obtain ⟨_, _, -, rfl⟩ := begin_eq_ok.mp hbegin
      rfl
  | proceed _ hround ih =>
      obtain ⟨_, _, _, _, _, hsolved, -, hdecision, -⟩ := round_proceed hround
      rw [hdecision, (decision_of_solveOver hsolved).1]
      exact ih

/-- After a round the decision is finite, even if the problem of the round could not be solved. -/
theorem Visits.isFinite (h : problem.Visits minimizer settings sample x state p)
    (hrounds : 0 < p.rounds) : p.decision.isFinite = true := by
  cases h with
  | opening hbegin =>
      obtain ⟨_, _, -, rfl⟩ := begin_eq_ok.mp hbegin
      exact absurd hrounds (Nat.lt_irrefl 0)
  | proceed _ hround =>
      obtain ⟨_, _, _, _, _, hsolved, -, hdecision, -⟩ := round_proceed hround
      rw [hdecision]
      exact (decision_of_solveOver hsolved).2

/-- Between two rounds the decision is the start, or it was found in the round
before and the newcomers of that round are among the points. -/
theorem Visits.origin (h : problem.Visits minimizer settings sample x state p) :
    (p.rounds = 0 ∧ p.decision = x) ∨
      ∃ q solved added, problem.Visits minimizer settings sample x state q ∧
        problem.round minimizer settings sample q = .ok (.proceed p) ∧ p.rounds = q.rounds + 1 ∧
        problem.solveOver minimizer settings.solver q.workingSet q.decision = .ok solved ∧
        p.decision = decisionOf x.size solved.solution ∧
        added ≠ [] ∧ p.workingSet = q.workingSet ++ added := by
  cases h with
  | opening hbegin =>
      obtain ⟨_, _, -, rfl⟩ := begin_eq_ok.mp hbegin
      exact Or.inl ⟨rfl, rfl⟩
  | @proceed q _ hvisits hround =>
      obtain ⟨solved, _, _, fresh, found, hsolved, -, hdecision, -, -, -, hne, hset, hrounds⟩ :=
        round_proceed hround
      rw [hvisits.size_eq] at hdecision
      exact Or.inr ⟨q, solved, _, hvisits, hround, hrounds, hsolved, hdecision,
        Vec.distinct_ne_nil hne, hset⟩

variable (hsample : (sample settings.samples).Yields fun points => points ≠ [] ∧ ∀ q ∈ points, U q)

include hsample

/-- Whatever holds of all sampled points holds of the points found so far, and there is one. -/
theorem Visits.points (h : problem.Visits minimizer settings sample x state p) :
    p.workingSet ≠ [] ∧ ∀ q ∈ p.workingSet, U q := by
  induction h with
  | opening hbegin =>
      obtain ⟨points, _, hpoints, rfl⟩ := begin_eq_ok.mp hbegin
      obtain ⟨hne, hmembers⟩ := hsample.value hpoints
      exact ⟨Vec.distinct_ne_nil hne, fun q hq => hmembers q (Vec.mem_of_mem_distinct hq)⟩
  | @proceed p q _ hround ih =>
      obtain ⟨_, _, _, fresh, found, -, -, -, -, hfresh, hfound, -, hset, -⟩ :=
        round_proceed hround
      have hnew : ∀ u ∈ Vec.distinct found, U u := by
        intro u hu
        have hmember := mem_of_newcomers hfound (Vec.mem_of_mem_distinct hu)
        exact (hsample.value hfresh).2 u hmember
      rw [hset]
      refine ⟨List.append_ne_nil_of_left_ne_nil ih.1 _, ?_⟩
      intro u hu
      rcases List.mem_append.mp hu with hu | hu
      · exact ih.2 u hu
      · exact hnew u hu

variable (hobjective : ∀ y q, y.size = x.size → y.isFinite = true → U q ∨ q = nominal →
  ∃ v, problem.objective y q = .ok v ∧ v.isFinite = true)

include hobjective

/-- At a finite decision the outcome is reported, with the worst case over the
points of a state. -/
theorem Visits.conclude_returns (h : problem.Visits minimizer settings sample x state p)
    (hfinite : p.decision.isFinite = true) (status : Status) (rounds : Nat) :
    ∃ outcome, problem.conclude nominal status { p with rounds } = .ok outcome ∧
      outcome.status = status ∧ outcome.iterations = rounds ∧ outcome.solution = p.decision ∧
      problem.IsWorstCase p.decision p.workingSet outcome.worstObjective
        outcome.worstParameters := by
  obtain ⟨hnonempty, hmembers⟩ := h.points hsample
  have hvalue (q : Vec Float) (hq : U q ∨ q = nominal) :=
    hobjective p.decision q h.size_eq hfinite hq
  obtain ⟨w, parameters, hworst⟩ := worstCase_succeeds problem.sense hnonempty
    fun q hq => (hvalue q (Or.inl (hmembers q hq))).imp fun _ hv => hv.1
  obtain ⟨value, hnominal, -⟩ := hvalue nominal (Or.inr rfl)
  refine ⟨_, conclude_eq_ok.mpr ⟨w, parameters, value, hworst, hnominal, rfl⟩, rfl, rfl, rfl, ?_⟩
  apply isWorstCase_of_worstCase _ hworst
  intro q hq v hv
  exact isFinite_of_ok (hvalue q (Or.inl (hmembers q hq))) hv

/-- What holds of an outcome when a round has found an optimum and no
newcomer. -/
theorem Visits.guarantees {last : RobustProgress σ Float} {outcome : RobustOutcome Float}
    (h : problem.Visits minimizer settings sample x state p)
    (hstop : problem.round minimizer settings sample p = .ok (.stop .optimal last))
    (hconclude : problem.conclude nominal .optimal last = .ok outcome) :
    ((∀ c ∈ problem.constraints, ∀ r, c.residual outcome.solution = .ok r → r.isNaN = false) →
      Constraint.allSatisfied settings.solver.constraintTolerance outcome.solution
        problem.constraints = .ok true) ∧
    outcome.iterations = p.rounds + 1 ∧ outcome.evaluated = p.workingSet.length ∧
    problem.IsWorstCase outcome.solution p.workingSet outcome.worstObjective
      outcome.worstParameters ∧
    ∃ fresh state', sample settings.samples p.state = .ok (fresh, state') ∧
      ∀ q ∈ fresh, ∃ v, problem.objective outcome.solution q = .ok v ∧
        (problem.sense.WithinMargin
            (settings.tolerance * larger 1.0 outcome.worstObjective.abs) outcome.worstObjective v ∨
          ∃ known ∈ p.workingSet, q.same known = true ∧
            problem.objective outcome.solution known ≠ .ok v) := by
  obtain ⟨-, hmembers⟩ := h.points hsample
  obtain ⟨hrounds, hset, solved, hsolved, hstatus, ⟨hno, -⟩ | ⟨-, hdecision, worst, parameters,
    fresh, hworst, hfresh, hnewcomers⟩⟩ := round_stop hstop
  · rw [hstatus] at hno
    cases hno
  obtain ⟨hsize, hfinite⟩ := decision_of_solveOver hsolved
  rw [← hdecision] at hsize hfinite
  have hvalue (q : Vec Float) (hq : U q) : ∃ v, problem.objective last.decision q = .ok v ∧
      v.isFinite = true :=
    hobjective last.decision q (hsize.trans h.size_eq) hfinite (Or.inl hq)
  have hvalues : ∀ q ∈ p.workingSet, ∀ v, problem.objective last.decision q = .ok v →
      v.isFinite = true := by
    intro q hq v hv
    exact isFinite_of_ok (hvalue q (hmembers q hq)) hv
  -- The worst case that is reported is the one that the newcomers were compared with.
  obtain ⟨worst', parameters', value, hworst', -, rfl⟩ := conclude_eq_ok.mp hconclude
  rw [hset, hworst] at hworst'
  cases hworst'
  have hcase := isWorstCase_of_worstCase hvalues hworst
  refine ⟨?_, hrounds, congrArg List.length hset, hcase, fresh, last.state, hfresh, ?_⟩
  · intro hnumbers
    simp only [hdecision] at hnumbers hvalues ⊢
    exact allSatisfied_of_solveOver hsolved hstatus hvalues hnumbers
  · intro q hq
    obtain ⟨v, hv, -⟩ := hvalue q ((hsample.value hfresh).2 q hq)
    refine ⟨v, hv, ?_⟩
    rcases known_or_noWorse_of_newcomers hnewcomers hq with ⟨known, hknown, hsame⟩ |
      ⟨v', hv', hnoWorse⟩
    · by_cases heq : problem.objective last.decision known = .ok v
      · obtain ⟨u, hu, hle⟩ := hcase.bound known hknown
        rw [heq] at hu
        cases hu
        exact Or.inl (Or.inl hle)
      · exact Or.inr ⟨known, hknown, hsame, heq⟩
    · rw [hv] at hv'
      cases hv'
      refine Or.inl (Or.inr ?_)
      cases hsense : problem.sense with
      | minimize =>
          simp only [hsense, Sense.isWorse, threshold] at hnoWorse
          exact of_decide_eq_false hnoWorse
      | maximize =>
          simp only [hsense, Sense.isWorse, threshold] at hnoWorse
          exact of_decide_eq_false hnoWorse

end Ends

/-- What a robust optimization guarantees, with an objective that is finite at
finite decisions. There are no more rounds than the budget. A converged outcome
satisfies the constraints, if no residual is undefined there; its worst case is
the one over the points of the last round, attained at the reported parameters,
and no point of the last sample exceeds it by more than the margin, unless the
point equals one of the points and the objective tells the two apart. A round
without a solution ends the optimization with its status and the decision of
the round before, at its worst over all points. A budget that is used up does
not count as converged. -/
theorem outcome_guarantees {σ : Type} {problem : RobustProblem Float}
    {minimizer : Minimizer Float} {fields : List (String × Datum)} {settings : RobustSettings Float}
    {sample : Nat → Draw σ (List (Vec Float))} {U : Vec Float → Prop} {x nominal : Vec Float}
    (hsettings : RobustSettings.ofFields fields = .ok settings)
    (hsample : (sample settings.samples).Yields fun points => points ≠ [] ∧ ∀ q ∈ points, U q)
    (hobjective : ∀ y q, y.size = x.size → y.isFinite = true → U q ∨ q = nominal →
      ∃ v, problem.objective y q = .ok v ∧ v.isFinite = true) (state : σ) :
    let result := problem.optimize minimizer settings sample nominal x state
    let Visited := problem.Visits minimizer settings sample x state
    (∀ outcome, result = .ok outcome →
      outcome.iterations ≤ settings.rounds ∧
      (outcome.converged = true →
        ((∀ c ∈ problem.constraints, ∀ r, c.residual outcome.solution = .ok r → r.isNaN = false) →
          Constraint.allSatisfied settings.tolerance outcome.solution problem.constraints =
            .ok true) ∧
        ∃ p, Visited p ∧ outcome.iterations = p.rounds + 1 ∧
          outcome.evaluated = p.workingSet.length ∧
          problem.IsWorstCase outcome.solution p.workingSet outcome.worstObjective
            outcome.worstParameters ∧
          ∃ fresh state', sample settings.samples p.state = .ok (fresh, state') ∧
            ∀ q ∈ fresh, ∃ v, problem.objective outcome.solution q = .ok v ∧
              (problem.sense.WithinMargin
                  (settings.tolerance * larger 1.0 outcome.worstObjective.abs)
                  outcome.worstObjective v ∨
                ∃ known ∈ p.workingSet, q.same known = true ∧
                  problem.objective outcome.solution known ≠ .ok v))) ∧
    (∀ p solved, Visited p → p.rounds < settings.rounds →
      problem.solveOver minimizer settings.solver p.workingSet p.decision = .ok solved →
      solved.status.hasSolution = false →
      (∃ outcome, result = .ok outcome ∧ outcome.status = solved.status ∧
        outcome.iterations = p.rounds + 1 ∧ outcome.solution = p.decision ∧
        problem.IsWorstCase p.decision p.workingSet outcome.worstObjective
          outcome.worstParameters) ∧
      ((p.rounds = 0 ∧ p.decision = x) ∨
        ∃ q before added, Visited q ∧
          problem.round minimizer settings sample q = .ok (.proceed p) ∧ p.rounds = q.rounds + 1 ∧
          problem.solveOver minimizer settings.solver q.workingSet q.decision = .ok before ∧
          p.decision = decisionOf x.size before.solution ∧
          added ≠ [] ∧ p.workingSet = q.workingSet ++ added)) ∧
    (∀ p, Visited p → p.rounds = settings.rounds →
      ∃ outcome, result = .ok outcome ∧ outcome.iterations = settings.rounds ∧
        outcome.converged = false) := by
  obtain ⟨hbudget, htolerance⟩ := RobustSettings.of_ofFields hsettings
  refine ⟨?_, ?_, ?_⟩
  · intro outcome h
    obtain ⟨status, last, hconclude, ⟨rfl, hvisits, hrounds⟩ | ⟨p, hvisits, hless, hstop⟩⟩ :=
      optimize_cases h
    · obtain ⟨_, _, _, -, -, rfl⟩ := conclude_eq_ok.mp hconclude
      refine ⟨hrounds.le, ?_⟩
      intro hconverged
      cases hconverged
    · have hstatus : outcome.status = status := by
        obtain ⟨_, _, _, -, -, rfl⟩ := conclude_eq_ok.mp hconclude
        rfl
      have hiterations : outcome.iterations = p.rounds + 1 := by
        obtain ⟨_, _, _, -, -, rfl⟩ := conclude_eq_ok.mp hconclude
        exact (round_stop hstop).1
      refine ⟨by omega, ?_⟩
      intro hconverged
      have hoptimal : status = .optimal := by
        rw [← hstatus]
        exact beq_iff_eq.mp hconverged
      subst hoptimal
      obtain ⟨hsatisfied, hcounts, hevaluated, hworst, hfresh⟩ :=
        hvisits.guarantees hsample hobjective hstop hconclude
      rw [htolerance] at hsatisfied
      exact ⟨hsatisfied, p, hvisits, hcounts, hevaluated, hworst, hfresh⟩
  · intro p solved hvisits hless hsolved hno
    refine ⟨?_, hvisits.origin⟩
    have hround : problem.round minimizer settings sample p =
        .ok (.stop solved.status { p with rounds := p.rounds + 1 }) :=
      round_eq_ok.mpr ⟨solved, hsolved, Or.inl ⟨hno, rfl⟩⟩
    obtain ⟨outcome, hconclude, hreported⟩ := hvisits.conclude_returns hsample hobjective
      (isFinite_of_solveOver hsolved) solved.status (p.rounds + 1)
    refine ⟨outcome, ?_, hreported⟩
    obtain ⟨budget, hleft⟩ : ∃ budget, settings.rounds - p.rounds = budget + 1 :=
      Nat.exists_eq_succ_of_ne_zero (by omega)
    rw [hvisits.optimize_eq hless.le, hleft, ← hconclude]
    simp only [RobustProblem.run, hround]
    rfl
  · intro p hvisits hrounds
    have hfinite := hvisits.isFinite (by omega)
    obtain ⟨outcome, hconclude, hstatus, hiterations, -⟩ :=
      hvisits.conclude_returns hsample hobjective hfinite .maxIterations p.rounds
    refine ⟨outcome, ?_, hiterations.trans hrounds, ?_⟩
    · rw [hvisits.optimize_eq hrounds.le, hrounds, Nat.sub_self, ← hconclude]
      rfl
    · rw [RobustOutcome.converged, hstatus]
      rfl

section Parameters

def belowParameter : RobustProblem Float where
  objective y q := do return if (← y.get 0) < (← q.get 0) then 1.0 else 0.0
  constraints := [firstAtMostTwo]
  sense := .minimize

def oneThenTwo : Nat → Draw Bool (List (Vec Float)) :=
  fun _ first => .ok ([if first then ⟨[1.0]⟩ else ⟨[2.0]⟩], false)

/-- An optimization whose minimizer always finds a decision and a bound of one. The second parameter
joins after the first round. -/
def joinedOptimization : Except Fault (RobustSettings Float × RobustOutcome Float) := do
  let settings ← RobustSettings.ofFields []
  let outcome ← belowParameter.optimize (fun _ _ _ => .ok (⟨[1.0, 1.0]⟩, ⟨[0.0, 0.0]⟩)) settings
    oneThenTwo ⟨[1.0]⟩ ⟨[0.0]⟩ true
  return (settings, outcome)

theorem belowParameter_finite (y q : Vec Float) (hy : y.size = 1) (hq : q.size = 1) :
    ∃ v, belowParameter.objective y q = .ok v ∧ v.isFinite = true := by
  obtain ⟨a, rfl⟩ := Vec.exists_of_size_one hy
  obtain ⟨b, rfl⟩ := Vec.exists_of_size_one hq
  refine ⟨if a < b then 1.0 else 0.0, rfl, ?_⟩
  split
  · decide +kernel
  · decide +kernel

theorem joinedOptimization_guarantees :
    ∃ settings outcome, joinedOptimization = .ok (settings, outcome) ∧
      outcome.converged = true ∧ outcome.iterations = 2 ∧
      Constraint.allSatisfied settings.tolerance outcome.solution [firstAtMostTwo] = .ok true ∧
      ∃ points : List (Vec Float), points.length = 2 ∧
        belowParameter.IsWorstCase outcome.solution points outcome.worstObjective
          outcome.worstParameters := by
  obtain ⟨⟨settings, outcome⟩, hrun, hcheck⟩ : ∃ found, joinedOptimization = .ok found ∧
      decide (found.2.status = .optimal ∧ found.2.iterations = 2 ∧ found.2.evaluated = 2 ∧
        found.2.solution.toList = [1.0]) = true :=
    exists_ok_of_any (by decide +kernel)
  obtain ⟨hstatus, htwo, hpoints, hsolution⟩ := of_decide_eq_true hcheck
  have hpoint : outcome.solution = ⟨[1.0]⟩ := congrArg Vec.mk hsolution
  refine ⟨settings, outcome, hrun, ?_⟩
  simp only [joinedOptimization, bind_eq_ok, pure_eq_ok] at hrun
  obtain ⟨settings', hsettings, outcome', houtcome, hpair⟩ := hrun
  cases hpair
  have hsample : (oneThenTwo settings.samples).Yields
      fun points => points ≠ [] ∧ ∀ q ∈ points, q.size = 1 := by
    intro first
    refine ⟨_, _, rfl, List.cons_ne_nil _ _, ?_⟩
    intro q hq
    rw [List.mem_singleton.mp hq]
    cases first with
    | true => rfl
    | false => rfl
  have hobjective : ∀ y q, y.size = (⟨[0.0]⟩ : Vec Float).size → y.isFinite = true →
      q.size = 1 ∨ q = ⟨[1.0]⟩ → ∃ v, belowParameter.objective y q = .ok v ∧ v.isFinite = true := by
    intro y q hy _ hq
    apply belowParameter_finite y q hy
    rcases hq with hq | rfl
    · exact hq
    · rfl
  obtain ⟨hends, -, -⟩ := outcome_guarantees hsettings hsample hobjective true
  have hconverged : outcome.converged = true := by
    rw [RobustOutcome.converged, hstatus]
    rfl
  obtain ⟨-, hguarantees⟩ := hends outcome houtcome
  obtain ⟨hsatisfied, p, -, -, hevaluated, hworst, -⟩ := hguarantees hconverged
  refine ⟨hconverged, htwo, ?_, p.workingSet, hevaluated.symm.trans hpoints, hworst⟩
  apply hsatisfied
  intro c hc r hr
  rw [List.mem_singleton.mp hc, hpoint] at hr
  cases hr
  decide +kernel

def byParameterSign : RobustProblem Float where
  objective _ q := do return if 0.0 < 1.0 / (← q.get 0) then 5.0 else 0.0
  constraints := []
  sense := .minimize

def bothZeros : List (Vec Float) := [⟨[-0.0]⟩, ⟨[0.0]⟩]

def zerosOptimization : Except Fault (RobustSettings Float × RobustOutcome Float) := do
  let settings ← RobustSettings.ofFields []
  let outcome ← byParameterSign.optimize (fun _ _ _ => .ok (⟨[0.0, 0.0]⟩, ⟨[0.0, 0.0]⟩)) settings
    (fun _ => (pure bothZeros : Draw Unit (List (Vec Float)))) ⟨[-0.0]⟩ ⟨[1.0]⟩ ()
  return (settings, outcome)

/-- All costs are finite and the optimization converges, but at a parameter of
the last sample the costs are five and the worst costs reported are zero. -/
theorem zerosOptimization_misses_worse_point :
    ∃ settings outcome, zerosOptimization = .ok (settings, outcome) ∧ outcome.converged = true ∧
      (∀ y, ∀ q ∈ bothZeros, ∃ v, byParameterSign.objective y q = .ok v ∧ v.isFinite = true) ∧
      ∃ q ∈ bothZeros, byParameterSign.objective outcome.solution q = .ok 5.0 ∧
        ¬ byParameterSign.sense.WithinMargin
          (settings.tolerance * larger 1.0 outcome.worstObjective.abs)
          outcome.worstObjective 5.0 := by
  obtain ⟨⟨settings, outcome⟩, hrun, hcheck⟩ : ∃ found, zerosOptimization = .ok found ∧
      decide (found.2.status = .optimal ∧ found.2.worstObjective = 0.0 ∧
        found.1.tolerance = 1e-6) = true :=
    exists_ok_of_any (by decide +kernel)
  obtain ⟨hstatus, hworst, htolerance⟩ := of_decide_eq_true hcheck
  have hconverged : outcome.converged = true := by
    rw [RobustOutcome.converged, hstatus]
    rfl
  refine ⟨settings, outcome, hrun, hconverged, ?_, ⟨[0.0]⟩, by simp [bothZeros], ?_, ?_⟩
  · intro y q hq
    simp only [bothZeros, List.mem_cons, List.not_mem_nil, or_false] at hq
    rcases hq with rfl | rfl
    · exact ⟨_, rfl, by decide +kernel⟩
    · exact ⟨_, rfl, by decide +kernel⟩
  · exact congrArg Except.ok (by decide +kernel)
  · rw [hworst, htolerance]
    rintro (hle | hmargin)
    · revert hle
      change ¬ (5.0 : Float) ≤ 0.0
      decide +kernel
    · apply hmargin
      decide +kernel

end Parameters

end RobustProblem

end Optima
