import Optima.Proofs.Period.PlanOutcome
import Optima.Proofs.Scalar.Real
import Optima.Proofs.Solver.Matching
import Optima.Proofs.Solver.Nesting

/-!
Plans over one period. The flat vector holds a single state, which is its only segment, and the
weight of this state is one, whatever the discount rate is. So the flat problem matches the problem
over one state, in which every rule reads the state as the first, the last and the only one, and
rules on transitions say nothing. Both problems have one outcome, and what is read back from it is
what the outcome says.
-/

namespace Optima

variable {α : Type}

def PeriodRule.alone : PeriodRule α → List (Vec α → Except Fault α)
  | eachPeriod residual => [fun x => residual 0 x]
  | terminal residual => [residual]
  | transition _ => []
  | trajectory residual => [fun x => residual [x]]
  | cumulative residual => [fun x => residual 0 [x]]

/-- The constraints on a state that stand for a constraint on trajectories of a single period. -/
def PeriodConstraint.alone (c : PeriodConstraint α) : List (Constraint α) :=
  c.rule.alone.map fun residual =>
    { relation := if c.mark.isPresent then .equality else .inequality, residual, name := c.name }

/-- The first segment of a vector of one state is the vector. -/
theorem periodOf_zero {n : Nat} {z : Vec α} (hz : z.size = n) : periodOf n z (0 : Nat) = z := by
  rw [periodOf_eq, Nat.zero_mul, List.drop_zero, List.take_of_length_le hz.le]

theorem periodsOf_one {n : Nat} {z : Vec α} (hz : z.size = n) : periodsOf n z 1 = [z] := by
  simp only [periodsOf, List.range_one, List.map_cons, List.map_nil, periodOf_zero hz]

/-- Lowered to one period, a rule reads the only state. -/
theorem PeriodRule.lower_one (n : Nat) (rule : PeriodRule α) :
    List.Forall₂ (fun lowered residual => ∀ z : Vec α, z.size = n → residual z = lowered z)
      (rule.lower (1 : Nat) n) rule.alone := by
  cases rule with
  | eachPeriod residual =>
      exact .cons (fun z hz => congrArg (residual 0) (periodOf_zero hz).symm) .nil
  | terminal residual => exact .cons (fun z hz => congrArg residual (periodOf_zero hz).symm) .nil
  | transition residual => exact .nil
  | trajectory residual => exact .cons (fun z hz => congrArg residual (periodsOf_one hz).symm) .nil
  | cumulative residual =>
      exact .cons (fun z hz => congrArg (residual 0) (periodsOf_one hz).symm) .nil

/-- With a single period the flat vector is its state, and transitions have no instances. -/
theorem PeriodConstraint.lower_one_coincides (n : Nat) (cs : List (PeriodConstraint α)) :
    List.Forall₂ (Constraint.Coincides n) (cs.flatMap fun c => c.lower (1 : Nat) n)
      (cs.flatMap alone) := by
  induction cs with
  | nil => exact .nil
  | cons c cs ih =>
      rw [List.flatMap_cons, List.flatMap_cons]
      refine List.rel_append ?_ ih
      simp only [lower, alone, List.forall₂_map_left_iff, List.forall₂_map_right_iff]
      exact (c.rule.lower_one n).imp fun _ _ hresidual => ⟨rfl, rfl, hresidual⟩

/-- The outcome of a plan over one period restates the outcome for its only
state. -/
structure PlanOutcome.Restates (p : PlanOutcome ℝ) (o : Outcome ℝ) : Prop where
  status : p.status = o.status
  iterations : p.iterations = o.iterations
  states : p.trajectory.states = [o.solution]
  periodObjectives : p.periodObjectives = [o.objective]
  totalObjective : p.totalObjective = o.objective
  maxViolation : p.maxViolation = o.violation

namespace Plan

def optimizeNested [Scalar α] (plan : Plan α) (minimizer : Minimizer α)
    (objective : PeriodObjective α) (periodAware : Option Bool) (start : Trajectory α)
    (items : Nested (Item α)) (sense : Sense) : Except Fault (PlanOutcome α) := do
  let objective ← objective.resolve periodAware
  let constraints ← flattenPeriods items
  plan.optimize minimizer objective start constraints sense

/-- With doubles this is what is done once the start has been read. -/
theorem optimizePlanWith_eq (minimizer : Minimizer Float) (plan : Plan Float)
    (objective : PeriodObjective Float) (periodAware : Option Bool) (state given : Datum)
    (items : Nested (Item Float)) (sense : Sense) :
    optimizePlanWith minimizer plan objective periodAware state given items sense =
      (do
        let x ← Check.array state "initial_state"
        let start ← plan.start x given
        plan.optimizeNested minimizer objective periodAware start items sense) := rfl

variable {plan : Plan ℝ} (hperiods : plan.periods = 1) {n : Nat}
  {objective : Nat → Vec ℝ → Except Fault ℝ} {constraints : List (PeriodConstraint ℝ)}
  {sense : Sense}

/-- What a single period is worth is not discounted. -/
theorem discounted_singleton (plan : Plan ℝ) (value : ℝ) : plan.discounted [value] = value := by
  rw [discounted_eq_dot, Exact.dot_eq]
  simp

include hperiods

theorem total_one {z : Vec ℝ} (hz : z.size = n) : plan.total n objective z = objective 0 z := by
  simp only [total, hperiods, List.range_one, List.mapM_cons, List.mapM_nil, periodOf_zero hz,
    bind_assoc, pure_bind, discounted_singleton, bind_pure]

/-- The flat problem matches the problem over the only state. -/
theorem problem_matches :
    (plan.problem n objective constraints sense).Matches id (fun z => z.size = n)
      { objective := objective 0, constraints := constraints.flatMap PeriodConstraint.alone,
        weight := sense.sign } := by
  have hlowered : (plan.problem n objective constraints sense).constraints =
      constraints.flatMap fun c => c.lower (1 : Nat) n := by
    rw [problem, hperiods]
  exact Problem.matches_of_coincides (PeriodConstraint.lower_one_coincides n constraints)
    (fun z hz => (total_one hperiods hz).symm) rfl hlowered rfl

/-- What is read back from the only state restates what is known of it. -/
theorem readBack_one {solved : Outcome ℝ} (hsize : solved.solution.size = n)
    (hobjective : objective 0 solved.solution = .ok solved.objective)
    (hviolation : ∃ r, (plan.problem n objective constraints sense).residuals solved.solution =
      .ok r ∧ r.worst = solved.violation) :
    ∃ outcome, plan.readBack n objective constraints solved = .ok outcome ∧
      outcome.Restates solved := by
  obtain ⟨r, hr, hworst⟩ := hviolation
  obtain ⟨t, ht⟩ : ∃ t, Trajectory.ofFlat solved.solution plan.periods n = .ok t :=
    Trajectory.exists_ofFlat hperiods.ge (by rw [hperiods, one_mul, hsize])
  have hstates : t.states = [solved.solution] := by
    rw [(Trajectory.ofFlat_eq_ok.mp ht).2, hperiods, periodsOf_one hsize]
  have hvalues : t.states.zipIdx.mapM (fun e => objective e.2 e.1) = .ok [solved.objective] := by
    rw [hstates]
    simp only [List.zipIdx_singleton, List.mapM_cons, List.mapM_nil, hobjective]
    rfl
  have hlowered : Constraint.violations (plan.problem n objective constraints sense).constraints
      solved.solution = (do return (← constraints.mapM fun c => c.violations t).flatten) :=
    violations_flatMap_lower ht constraints
  obtain ⟨flat, hflat⟩ := Constraint.violations_of_residuals hr
  obtain ⟨violations, hviolations, rfl⟩ : ∃ violations,
      constraints.mapM (fun c => c.violations t) = .ok violations ∧ violations.flatten = flat := by
    rw [hflat] at hlowered
    simpa only [bind_eq_ok, pure_eq_ok] using hlowered.symm
  obtain ⟨v, hv, hsame⟩ := Problem.worst_same_maxViolation hr fun _ _ _ _ => Exact.defined _
  simp only [Constraint.maxViolation, hflat] at hv
  refine ⟨_, bind_eq_ok.mpr ⟨t, ht, bind_eq_ok.mpr ⟨_, hvalues, bind_eq_ok.mpr
    ⟨violations, hviolations, rfl⟩⟩⟩, rfl, rfl, hstates, rfl, discounted_singleton plan _, ?_⟩
  rw [← hworst, (Exact.same_iff _ _).mp hsame]
  exact Except.ok.inj hv

theorem flatten_of_one {t : Trajectory ℝ} (ht : t.periods = plan.periods) :
    t.flatten = t.first := by
  have hnone : t.rest = [] := by
    rw [hperiods] at ht
    exact List.length_eq_zero_iff.mp (Nat.succ.inj ht)
  simp only [Trajectory.flatten, Trajectory.states, hnone, List.flatMap_cons, List.flatMap_nil,
    List.append_nil]

/-- The solve of the flat problem is the solve over the only state, and what is
read back restates it. -/
theorem optimize_agree_one {minimizer : Minimizer ℝ} {start : Trajectory ℝ}
    (hstart : start.periods = plan.periods) (hminimizer : minimizer.Confined start.dimension) :
    Agree PlanOutcome.Restates
      (plan.optimize minimizer objective start constraints sense)
      (({ objective := objective 0, constraints := constraints.flatMap PeriodConstraint.alone,
          weight := sense.sign } : Problem ℝ).optimize minimizer plan.settings start.first
        fun _ => false) := by
  have hmatches : (plan.problem start.dimension objective constraints sense).Matches id
      (fun z => z.size = start.dimension) _ := problem_matches hperiods
  have hsolves : Agree _ ((plan.problem start.dimension objective constraints sense).optimize
      minimizer plan.settings start.first fun _ => false) _ :=
    hmatches.optimize_agree_of_confined rfl rfl hminimizer rfl fun _ => false
  unfold optimize
  rw [flatten_of_one hperiods hstart, ← bind_pure (Problem.optimize _ _ _ _ _)]
  apply hsolves.and_ok.chain
  rintro solved _ ⟨hsolved, hsize, rfl⟩
  obtain ⟨hobjective, hviolation⟩ := measured_of_optimize hsolved
  obtain ⟨outcome, hback, hrestates⟩ :=
    readBack_one hperiods hsize ((total_one hperiods hsize).symm.trans hobjective) hviolation
  rw [hback]
  exact hrestates

end Plan

/-- One period is the problem over its only state. A plan over one period, at
any discount rate, ends with the fault that the solve over the state ends with,
or with its status, its iterations, its solution as the only state and its
objective, and the largest violation is the one that the solve reports. In the
problem over the state every constraint reads the state in all the places that
it has for states, and constraints on transitions are left out. -/
theorem one_period_is_the_problem_of_its_state {minimizer : Minimizer ℝ} {plan : Plan ℝ}
    {objective : PeriodObjective ℝ} {periodAware : Option Bool}
    {worth : Nat → Vec ℝ → Except Fault ℝ} {start : Trajectory ℝ}
    {items alone : List (Nested (Item ℝ))} {constraints : List (PeriodConstraint ℝ)}
    (sense : Sense) (hperiods : plan.periods = 1) (hstart : start.periods = plan.periods)
    (hminimizer : minimizer.Confined start.dimension)
    (hworth : objective.resolve periodAware = .ok worth)
    (hitems : Nested.leavesOf items = constraints.map Item.period)
    (halone : Nested.leavesOf alone =
      (constraints.flatMap PeriodConstraint.alone).map Item.decision) :
    Agree PlanOutcome.Restates
      (plan.optimizeNested minimizer objective periodAware start (.group items) sense)
      (optimizeNested minimizer plan.settings (worth 0) none start.first (.group alone) sense
        fun _ => false) := by
  rw [optimizeNested_group halone, Plan.optimizeNested, hworth, flattenPeriods_group hitems]
  exact Plan.optimize_agree_one hperiods hstart hminimizer

section Moment

/-- A constraint of each kind: on the number of the period, on the last state,
on the way to the next state, on the number of states, and on the states so
far. -/
noncomputable def momentConstraints : List (PeriodConstraint ℝ) :=
  [{ rule := .eachPeriod fun t x => do return (← x.get 0) - t },
   { rule := .terminal fun x => x.get 0, mark := .flag true },
   { rule := .transition fun _ x y => do return (← y.get 0) - (← x.get 0) },
   { rule := .trajectory fun states => .ok (states.length - 2) },
   { rule := .cumulative fun t states => .ok (states.length + t - 3) }]

noncomputable def momentItems : List (Nested (Item ℝ)) :=
  [.group (momentConstraints.map fun c => .leaf (.period c)), .group []]

noncomputable def momentPlan : Plan ℝ where
  periods := 1
  discountRate := (4 : ℕ)⁻¹
  settings := modestSettings

def momentStart : Trajectory ℝ where
  first := ⟨[3]⟩
  rest := []
  uniform := by simp

noncomputable def squareWorth : PeriodObjective ℝ where
  arguments := some 1
  ofState x := do return (← x.get 0) * (← x.get 0)
  ofPeriod _ _ := .error .wrongKind

noncomputable def momentProblem : Problem ℝ where
  objective := squareWorth.ofState
  constraints := momentConstraints.flatMap PeriodConstraint.alone
  weight := Sense.minimize.sign

theorem momentProblem_evaluates : momentProblem.Evaluates 1 := by
  have hfirst {y : Vec ℝ} (hsize : y.size = 1) : ∃ t, y.get 0 = .ok t := by
    obtain ⟨t, rfl⟩ := Vec.exists_of_size_one hsize
    exact ⟨t, rfl⟩
  constructor
  · intro y hy
    obtain ⟨t, ht⟩ := hfirst hy
    exact ⟨t * t, by simp only [momentProblem, squareWorth, ht]; rfl⟩
  · simp only [momentProblem, momentConstraints, List.flatMap_cons, List.flatMap_nil,
      PeriodConstraint.alone, PeriodRule.alone, List.map_cons, List.map_nil, List.append_nil,
      List.cons_append, List.nil_append, List.mem_cons, List.not_mem_nil, or_false,
      forall_eq_or_imp, forall_eq]
    refine ⟨?_, fun y hy => hfirst hy, fun y _ => ⟨_, rfl⟩, fun y _ => ⟨_, rfl⟩⟩
    intro y hy
    obtain ⟨t, ht⟩ := hfirst hy
    exact ⟨t - (0 : Nat), by rw [ht]; rfl⟩
  · rfl
  · intro c hc
    obtain ⟨d, -, hd⟩ := List.mem_flatMap.mp hc
    obtain ⟨residual, -, rfl⟩ := List.mem_map.mp hd
    rfl

/-- A plan over one period, with constraints of all kinds, whose minimizer
stays at the start: the plan ends there, and its total is not discounted. -/
theorem momentPlan_stays :
    ∃ outcome, momentPlan.optimizeNested staying squareWorth none momentStart (.group momentItems)
        .minimize = .ok outcome ∧
      outcome.trajectory.states = [⟨[3]⟩] ∧ outcome.totalObjective = 9 := by
  obtain ⟨solved, hsolved⟩ : ∃ solved, momentProblem.optimize staying momentPlan.settings
      momentStart.first (fun _ => false) = .ok solved :=
    optimize_returns modestSettings_accepted staying_keepsSize staying_answers
      momentProblem_evaluates rfl
  have hsolution : solved.solution = ⟨[3]⟩ := solution_of_staying hsolved
  have hobjective : solved.objective = 3 * 3 := by
    obtain ⟨hmeasured, -⟩ := measured_of_optimize hsolved
    rw [hsolution] at hmeasured
    exact (Except.ok.inj hmeasured).symm
  have hworth : squareWorth.resolve none = .ok fun _ x => squareWorth.ofState x := rfl
  have hitems : Nested.leavesOf momentItems = momentConstraints.map Item.period := rfl
  have halone : Nested.leavesOf (momentProblem.constraints.map fun c => .leaf (.decision c)) =
      momentProblem.constraints.map Item.decision := rfl
  have hagree : Agree PlanOutcome.Restates
      (momentPlan.optimizeNested staying squareWorth none momentStart (.group momentItems)
        .minimize)
      (optimizeNested staying momentPlan.settings squareWorth.ofState none momentStart.first
        (.group (momentProblem.constraints.map fun c => .leaf (.decision c))) .minimize
        fun _ => false) :=
    one_period_is_the_problem_of_its_state .minimize rfl rfl (staying_confined 1) hworth hitems
      halone
  have hstate : optimizeNested staying momentPlan.settings squareWorth.ofState none
      momentStart.first (.group (momentProblem.constraints.map fun c => .leaf (.decision c)))
      .minimize (fun _ => false) = .ok solved := by
    rw [optimizeNested_group halone]
    exact hsolved
  rw [hstate] at hagree
  obtain ⟨outcome, houtcome, hrestates⟩ := hagree.of_ok_right
  refine ⟨outcome, houtcome, ?_, ?_⟩
  · rw [hrestates.states, hsolution]
  · rw [hrestates.totalObjective, hobjective]
    norm_num

end Moment

end Optima
