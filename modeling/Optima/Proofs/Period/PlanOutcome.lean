import Optima.Optimizer.Plan
import Optima.Proofs.Period.Satisfaction
import Optima.Proofs.Solver.Soundness
import Optima.Proofs.Solver.UniformSettings

/-!
What the outcome of a plan says. The flat problem is solved by one piece of code and the outcome is
computed anew from the trajectory by another; both read the same states, so that the total is the
objective that the solver reports and the violations are those of the flat constraints. A plan that
is reported as converged satisfies its constraints everywhere.
-/

namespace Optima

variable {α : Type} [Scalar α]

namespace Plan

/-- The discounted sum is the inner product with the powers of the discount
factor, added up from the first period on. -/
theorem discounted_eq_dot (plan : Plan α) (values : List α) :
    plan.discounted values =
      Scalar.dot ((List.range values.length).map (Scalar.power plan.discountFactor)) values := by
  have hterms : List.zipWith (· * ·)
      ((List.range values.length).map (Scalar.power plan.discountFactor)) values =
        values.zipIdx.map fun entry => plan.weight entry.2 * entry.1 := by
    apply List.ext_getElem
    · simp
    · intro i _ _
      simp [weight]
  unfold Scalar.dot Scalar.sum
  rw [hterms, List.foldl_map]
  rfl

/-- What is read back from the answer to the flat problem. -/
structure ReadsBack (plan : Plan α) (dimension : Nat) (objective : Nat → Vec α → Except Fault α)
    (constraints : List (PeriodConstraint α)) (solved : Outcome α) (outcome : PlanOutcome α) :
    Prop where
  status : outcome.status = solved.status
  trajectory : Trajectory.ofFlat solved.solution plan.periods dimension = .ok outcome.trajectory
  periodObjectives : outcome.trajectory.states.zipIdx.mapM (fun (x, t) => objective t x) =
    .ok outcome.periodObjectives
  totalObjective : outcome.totalObjective = plan.discounted outcome.periodObjectives
  violations : ∃ vs, constraints.mapM (fun c => c.violations outcome.trajectory) = .ok vs ∧
    outcome.violations = vs.flatten
  discountFactor : outcome.discountFactor = plan.discountFactor

theorem readsBack_of_readBack {plan : Plan α} {dimension : Nat}
    {objective : Nat → Vec α → Except Fault α} {constraints : List (PeriodConstraint α)}
    {solved : Outcome α} {outcome : PlanOutcome α}
    (h : plan.readBack dimension objective constraints solved = .ok outcome) :
    plan.ReadsBack dimension objective constraints solved outcome := by
  simp only [readBack, bind_eq_ok, pure_eq_ok] at h
  obtain ⟨trajectory, htrajectory, values, hvalues, violations, hviolations, rfl⟩ := h
  exact ⟨rfl, htrajectory, hvalues, rfl, ⟨violations, hviolations, rfl⟩, rfl⟩

theorem optimize_eq_ok {plan : Plan α} {minimizer : Minimizer α}
    {objective : Nat → Vec α → Except Fault α} {start : Trajectory α}
    {constraints : List (PeriodConstraint α)} {sense : Sense} {outcome : PlanOutcome α}
    (h : plan.optimize minimizer objective start constraints sense = .ok outcome) :
    ∃ solved, (plan.problem start.dimension objective constraints sense).optimize minimizer
        plan.settings start.flatten (fun _ => false) = .ok solved ∧
      plan.ReadsBack start.dimension objective constraints solved outcome := by
  simp only [optimize, bind_eq_ok] at h
  obtain ⟨solved, hsolved, hreadBack⟩ := h
  exact ⟨solved, hsolved, readsBack_of_readBack hreadBack⟩

/-- At a flat vector the discounted objective is that of its trajectory. -/
theorem total_eq {plan : Plan α} {dimension : Nat} {z : Vec α} {t : Trajectory α}
    (h : Trajectory.ofFlat z plan.periods dimension = .ok t)
    (objective : Nat → Vec α → Except Fault α) :
    plan.total dimension objective z =
      (do return plan.discounted (← t.states.zipIdx.mapM fun (x, i) => objective i x)) := by
  have hvalues : t.states.zipIdx.mapM (fun (x, i) => objective i x) =
      (List.range plan.periods).mapM fun i => objective i (periodOf dimension z i) := by
    rw [(Trajectory.ofFlat_eq_ok.mp h).2, periodsOf, PeriodRule.zipIdx_map_range, List.mapM_map]
    rfl
  unfold total
  rw [hvalues]

/-- The violations of all flat constraints, in order, are those along the
trajectory. -/
theorem violations_flatMap_lower {z : Vec α} {periods dimension : Nat} {t : Trajectory α}
    (h : Trajectory.ofFlat z periods dimension = .ok t) (cs : List (PeriodConstraint α)) :
    Constraint.violations (cs.flatMap fun c => c.lower periods dimension) z =
      (do return (← cs.mapM fun c => c.violations t).flatten) := by
  induction cs with
  | nil => rfl
  | cons c cs ih =>
      have hfirst := PeriodConstraint.violations_lower (c := c) h
      unfold Constraint.violations at hfirst ih ⊢
      rw [List.flatMap_cons, List.mapM_append, hfirst, ih, List.mapM_cons]
      simp only [bind_assoc, pure_bind, List.flatten_cons]

namespace ReadsBack

variable {plan : Plan α} {dimension : Nat} {objective : Nat → Vec α → Except Fault α}
  {constraints : List (PeriodConstraint α)} {sense : Sense} {solved : Outcome α}
  {outcome : PlanOutcome α}

/-- The total that is computed from the trajectory is what the solver measured at the flat vector.
-/
theorem totalObjective_eq (h : plan.ReadsBack dimension objective constraints solved outcome)
    (hsolved : (plan.problem dimension objective constraints sense).objective solved.solution =
      .ok solved.objective) :
    outcome.totalObjective = solved.objective := by
  have htotal : plan.total dimension objective solved.solution = .ok solved.objective := hsolved
  rw [total_eq h.trajectory, h.periodObjectives] at htotal
  rw [h.totalObjective]
  exact Except.ok.inj htotal

/-- The violations along the trajectory are those of the flat constraints, in their order. -/
theorem violations_eq (h : plan.ReadsBack dimension objective constraints solved outcome) :
    Constraint.violations (plan.problem dimension objective constraints sense).constraints
      solved.solution = .ok outcome.violations := by
  obtain ⟨vs, hvs, hflatten⟩ := h.violations
  have hviolations := violations_flatMap_lower h.trajectory constraints
  rw [hvs] at hviolations
  rw [hflatten]
  exact hviolations

/-- Residuals of flat constraints are residuals along the trajectory. -/
theorem residual_mem_evaluate
    (h : plan.ReadsBack dimension objective constraints solved outcome) {d : Constraint α}
    (hd : d ∈ (plan.problem dimension objective constraints sense).constraints) {v : α}
    (hv : d.residual solved.solution = .ok v) :
    ∃ c ∈ constraints, ∃ rs, c.evaluate outcome.trajectory = .ok rs ∧ v ∈ rs := by
  obtain ⟨c, hc, hlowered⟩ := List.mem_flatMap.mp hd
  obtain ⟨vs, hvs, -⟩ := h.violations
  obtain ⟨_, -, hviolations⟩ := result_of_mapM hvs hc
  obtain ⟨rs, hrs, -⟩ := PeriodConstraint.violations_eq_ok.mp hviolations
  refine ⟨c, hc, rs, hrs, ?_⟩
  rw [← PeriodConstraint.residuals_lower h.trajectory] at hrs
  exact (mem_of_mapM hrs v).mpr ⟨d, hlowered, hv⟩

/-- If the flat constraints are satisfied, so are the constraints along the
trajectory. -/
theorem isSatisfied (h : plan.ReadsBack dimension objective constraints solved outcome)
    {tolerance : α}
    (hflat : Constraint.allSatisfied tolerance solved.solution
      (plan.problem dimension objective constraints sense).constraints = .ok true)
    {c : PeriodConstraint α} (hc : c ∈ constraints) :
    c.isSatisfied tolerance outcome.trajectory = .ok true := by
  obtain ⟨vs, hvs, -⟩ := h.violations
  obtain ⟨violations, -, hviolations⟩ := result_of_mapM hvs hc
  refine PeriodConstraint.isSatisfied_eq_ok.mpr ⟨violations, hviolations, ?_⟩
  rw [List.all_eq_true]
  intro v hv
  rw [← PeriodConstraint.violations_lower h.trajectory] at hviolations
  obtain ⟨d, hd, hviolation⟩ := (mem_of_mapM hviolations v).mp hv
  obtain ⟨w, hw, hwithin⟩ := Constraint.violation_of_allSatisfied hflat
    (List.mem_flatMap.mpr ⟨c, hc, hd⟩)
  rw [hviolation] at hw
  exact Except.ok.inj hw ▸ hwithin

end ReadsBack

/-- A plan has a single tolerance, so the solver stops at the one that trajectories are checked
with. -/
theorem constraintTolerance_of_ofFields {fields : List (String × Datum)} {plan : Plan Float}
    (h : Plan.ofFields fields = .ok plan) :
    plan.settings.constraintTolerance = plan.settings.tolerance := by
  unfold Plan.ofFields at h
  split at h
  · obtain ⟨_, hthrow, -⟩ := bind_eq_ok.mp h
    exact absurd hthrow throw_ne_ok
  · simp only [bind_eq_ok, pure_eq_ok] at h
    obtain ⟨_, -, _, -, settings, hsettings, rfl⟩ := h
    exact Settings.constraintTolerance_of_uniform hsettings

theorem isSatisfied_eq_true {plan : Plan Float} {t : Trajectory Float}
    {items : Nested (Item Float)} {constraints : List (PeriodConstraint Float)}
    (hperiods : t.periods = plan.periods) (hitems : flattenPeriods items = .ok constraints)
    (h : ∀ c ∈ constraints, c.isSatisfied plan.settings.tolerance t = .ok true) :
    plan.isSatisfied t items .null = .ok true := by
  have hcheck : plan.checkPeriods t = .ok () := by
    simp only [checkPeriods, hperiods, beq_self_eq_true, if_true]
  simp only [isSatisfied, bind_eq_ok]
  exact ⟨(), hcheck, constraints, hitems, PeriodConstraint.allSatisfied_eq_true.mpr h⟩

end Plan

/-- The total of a plan is the sum of what its periods are worth, each counted with its power of the
discount factor, and it is the objective that the solver reports for the states one after the other.
The violations are those of the flat constraints, in order. If no residual along the trajectory is
undefined, the largest of them is the violation that the solver reports, and a converged plan
satisfies all its constraints, wherever they apply: those that are marked on both sides, the others
on one. -/
theorem plan_outcome_consistent_and_feasible {fields : List (String × Datum)} {plan : Plan Float}
    {minimizer : Minimizer Float} {objective : PeriodObjective Float} {periodAware : Option Bool}
    {state given : Datum} {items : Nested (Item Float)} {sense : Sense}
    {outcome : PlanOutcome Float} (hplan : Plan.ofFields fields = .ok plan)
    (h : optimizePlanWith minimizer plan objective periodAware state given items sense =
      .ok outcome) :
    ∃ x start value constraints solved,
      Check.array state "initial_state" = .ok x ∧ plan.start x given = .ok start ∧
      objective.resolve periodAware = .ok value ∧ flattenPeriods items = .ok constraints ∧
      let problem := plan.problem start.dimension value constraints sense
      problem.optimize minimizer plan.settings start.flatten (fun _ => false) = .ok solved ∧
      outcome.status = solved.status ∧ outcome.trajectory.flatten = solved.solution ∧
      outcome.trajectory.states.zipIdx.mapM (fun (x, t) => value t x) =
        .ok outcome.periodObjectives ∧
      outcome.discountFactor = 1.0 / (1.0 + plan.discountRate) ∧
      outcome.totalObjective =
        Scalar.dot ((List.range plan.periods).map (Scalar.power outcome.discountFactor))
          outcome.periodObjectives ∧
      outcome.totalObjective = solved.objective ∧
      Constraint.violations problem.constraints solved.solution = .ok outcome.violations ∧
      ((∀ c ∈ constraints, ∀ rs, c.evaluate outcome.trajectory = .ok rs →
          ∀ r ∈ rs, r.isNaN = false) →
        (solved.violation == outcome.maxViolation) = true ∧
        (outcome.converged = true →
          plan.isSatisfied outcome.trajectory items .null = .ok true ∧
          ∀ c ∈ constraints, c.HoldsWithin plan.settings.tolerance outcome.trajectory)) := by
  simp only [optimizePlanWith, bind_eq_ok] at h
  obtain ⟨x, hx, start, hstart, value, hvalue, constraints, hitems, h⟩ := h
  obtain ⟨solved, hsolved, hback⟩ := Plan.optimize_eq_ok h
  obtain ⟨hobjective, r, hresiduals, hworst⟩ := measured_of_optimize hsolved
  have hperiods := Trajectory.periods_of_ofFlat hback.trajectory
  have hcount : outcome.periodObjectives.length = plan.periods := by
    rw [← (mapM_eq_ok.mp hback.periodObjectives).length_eq, List.length_zipIdx]
    exact hperiods
  have htotal : outcome.totalObjective =
      Scalar.dot ((List.range plan.periods).map (Scalar.power outcome.discountFactor))
        outcome.periodObjectives := by
    rw [hback.totalObjective, Plan.discounted_eq_dot, hcount, hback.discountFactor]
  refine ⟨x, start, value, constraints, solved, hx, hstart, hvalue, hitems, hsolved, hback.status,
    Trajectory.flatten_of_ofFlat hback.trajectory, hback.periodObjectives, hback.discountFactor,
    htotal, hback.totalObjective_eq hobjective, hback.violations_eq, ?_⟩
  intro hnumbers
  have hdefined : ∀ d ∈ (plan.problem start.dimension value constraints sense).constraints,
      ∀ v, d.residual solved.solution = .ok v → Scalar.Defined v := by
    intro d hd v hv
    obtain ⟨c, hc, rs, hrs, hmember⟩ := hback.residual_mem_evaluate hd hv
    exact (Binary64.defined_iff v).mpr (hnumbers c hc rs hrs v hmember)
  constructor
  · obtain ⟨v, hv, hsame⟩ := Problem.worst_same_maxViolation hresiduals hdefined
    simp only [Constraint.maxViolation, hback.violations_eq] at hv
    rw [hworst, ← Except.ok.inj hv] at hsame
    exact hsame
  · intro hconverged
    have hoptimal : solved.status = .optimal := by
      rw [← hback.status]
      exact of_decide_eq_true hconverged
    obtain ⟨-, -, -, -, -, -, hwithin, -⟩ := last_iteration_of_optimal hsolved hoptimal
    rw [← hworst, Plan.constraintTolerance_of_ofFields hplan] at hwithin
    have hflat := Problem.allSatisfied_of_worst hresiduals hdefined hwithin
    have hsatisfied : ∀ c ∈ constraints,
        c.isSatisfied plan.settings.tolerance outcome.trajectory = .ok true :=
      fun c hc => hback.isSatisfied hflat hc
    exact ⟨Plan.isSatisfied_eq_true hperiods hitems hsatisfied,
      fun c hc => PeriodConstraint.holdsWithin_of_isSatisfied (hsatisfied c hc)⟩

section Growth

/-- The state grows by at most one from period to period. -/
def slowGrowth : PeriodConstraint Float where
  rule := .transition fun _ x y => do return (← y.get 0) - (← x.get 0) - 1.0

def endsAtTwo : PeriodConstraint Float where
  rule := .terminal fun x => do return (← x.get 0) - 2.0
  mark := .flag true

def growthItems : Nested (Item Float) :=
  .group [.leaf (.period slowGrowth), .group [.leaf (.period endsAtTwo)]]

def growthFields : List (String × Datum) :=
  [("number_of_periods", .whole 2), ("discount_rate", .real 1.0)]

/-- Two periods with states of one component, each of them worth its state,
the second one counted half. The minimizer answers at once. -/
def growthSolve (plan : Plan Float) : Except Fault (PlanOutcome Float) :=
  optimizePlanWith (fun _ _ _ => .ok (⟨[1.0, 2.0]⟩, ⟨[0.0, 0.0]⟩)) plan
    { arguments := some 1, ofState := fun x => x.get 0, ofPeriod := fun _ _ => .error .wrongKind }
    none (.list [.real 0.0]) .null growthItems .maximize

theorem growthSolve_consistent_and_feasible :
    ∃ plan outcome, Plan.ofFields growthFields = .ok plan ∧ growthSolve plan = .ok outcome ∧
      outcome.converged = true ∧ outcome.discountFactor = 0.5 ∧ outcome.totalObjective = 2.0 ∧
      outcome.totalObjective =
        Scalar.dot ((List.range plan.periods).map (Scalar.power outcome.discountFactor))
          outcome.periodObjectives ∧
      plan.isSatisfied outcome.trajectory growthItems .null = .ok true ∧
      slowGrowth.HoldsWithin plan.settings.tolerance outcome.trajectory ∧
      endsAtTwo.HoldsWithin plan.settings.tolerance outcome.trajectory := by
  obtain ⟨⟨plan, outcome⟩, hsolve, hcheck⟩ : ∃ pair : Plan Float × PlanOutcome Float,
      (do let plan ← Plan.ofFields growthFields
          return (plan, ← growthSolve plan)) = .ok pair ∧
        decide (pair.2.converged = true ∧ pair.2.discountFactor = 0.5 ∧
          pair.2.totalObjective = 2.0 ∧
          pair.2.trajectory.states.map Vec.toList = [[1.0], [2.0]]) = true :=
    exists_ok_of_any (by decide +kernel)
  obtain ⟨hconverged, hfactor, hworth, hstates⟩ := of_decide_eq_true hcheck
  simp only [bind_eq_ok, pure_eq_ok, Prod.mk.injEq] at hsolve
  obtain ⟨plan', hplan, outcome', houtcome, rfl, rfl⟩ := hsolve
  have htrajectory : outcome'.trajectory = ⟨⟨[1.0]⟩, [⟨[2.0]⟩], by simp [Vec.size]⟩ := by
    apply Trajectory.eq_of_states
    have hinjective : Function.Injective fun v : Vec Float => v.toList :=
      fun _ _ h => congrArg Vec.mk h
    exact List.map_injective_iff.mpr hinjective hstates
  obtain ⟨_, _, _, constraints, _, -, -, -, hitems, -, -, -, -, -, htotal, -, -, hrest⟩ :=
    plan_outcome_consistent_and_feasible hplan houtcome
  obtain rfl : [slowGrowth, endsAtTwo] = constraints := Except.ok.inj hitems
  obtain ⟨-, hfeasible⟩ := hrest (by
    rw [htrajectory]
    intro c hc rs hrs
    simp only [List.mem_cons, List.not_mem_nil, or_false] at hc
    rcases hc with rfl | rfl
    · cases hrs
      decide +kernel
    · cases hrs
      decide +kernel)
  obtain ⟨hsatisfied, hholds⟩ := hfeasible hconverged
  exact ⟨plan', outcome', hplan, houtcome, hconverged, hfactor, hworth, htotal, hsatisfied,
    hholds _ (by simp), hholds _ (by simp)⟩

end Growth

end Optima
