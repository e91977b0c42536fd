import Optima.Optimizer.Decision
import Optima.Proofs.Minimizer.QuasiNewton
import Optima.Proofs.Period.Returns
import Optima.Proofs.Robust.Returns
import Optima.Proofs.Scenario.Returns
import Optima.Proofs.Uncertainty.Samples

/-!
Difficulty is reported. A call is well-formed if everything given has passed its check and nothing
it calls fails; what is called may return any double. Decisions, plans and decisions under scenarios
then have an outcome, with a status that says so if the start is no good. A robust optimization has
one as long as all its rounds begin with a finite worst case. Otherwise the check meant for the
caller's start refuses the worst case that the optimization itself has put there.
-/

namespace Optima

/-- There is an outcome, and it is a numerical error if the value at the start is not finite. -/
def Reports {β : Type} (result : Except Fault β) (status : β → Status)
    (value : Except Fault Float) : Prop :=
  ∃ outcome, result = .ok outcome ∧
    ((∃ v, value = .ok v ∧ v.isFinite = false) → status outcome = .numericalError)

section Calls

structure DecisionCall where
  fields : List (String × Datum)
  settings : Settings Float
  objective : Vec Float → Except Fault Float
  gradient : Option (Vec Float → Except Fault (Vec Float))
  given : Datum
  start : Vec Float
  items : Nested (Item Float)
  constraints : List (Constraint Float)
  sense : Sense
  interrupt : Snapshot Float → Bool
  hsettings : Settings.ofFields fields = .ok settings
  hstart : Check.array given "initial_state" = .ok start
  hconstraints : flattenConstraints items = .ok constraints
  responds : Problem.Responds { objective, gradient, constraints, weight := sense.sign } start.size

def DecisionCall.result (call : DecisionCall) (minimizer : Minimizer Float) :
    Except Fault (Outcome Float) :=
  optimizeDecisionWith minimizer call.settings call.objective call.gradient call.given call.items
    call.sense call.interrupt

/-- A well-formed call for a plan. What a period is worth has a value in all periods of the plan,
and constraints have residuals along all trajectories with the extents of the start. -/
structure PlanCall where
  fields : List (String × Datum)
  plan : Plan Float
  objective : PeriodObjective Float
  periodAware : Option Bool
  worth : Nat → Vec Float → Except Fault Float
  state : Datum
  given : Datum
  first : Vec Float
  start : Trajectory Float
  items : Nested (Item Float)
  constraints : List (PeriodConstraint Float)
  sense : Sense
  hplan : Plan.ofFields fields = .ok plan
  hstate : Check.array state "initial_state" = .ok first
  hstart : plan.start first given = .ok start
  hfinite : start.flatten.isFinite = true
  hworth : objective.resolve periodAware = .ok worth
  hconstraints : flattenPeriods items = .ok constraints
  worth_responds : ∀ t y, t < plan.periods → y.size = start.dimension → ∃ v, worth t y = .ok v
  constraints_respond : ∀ c ∈ constraints, ∀ t : Trajectory Float, t.periods = plan.periods →
    t.dimension = start.dimension → ∃ rs, c.evaluate t = .ok rs

def PlanCall.result (call : PlanCall) (minimizer : Minimizer Float) :
    Except Fault (PlanOutcome Float) :=
  optimizePlanWith minimizer call.plan call.objective call.periodAware call.state call.given
    call.items call.sense

structure ScenarioCall where
  scenarios : List (Scenario Float ⊕ Datum)
  fields : List (String × Datum)
  outlook : Outlook Float
  settings : Settings Float
  request : ScenarioRequest
  start : Vec Float
  constraints : List (Constraint Float)
  hprepared : prepareScenarios scenarios fields = .ok (outlook, settings)
  hstart : Check.array request.start "initial_solution" = .ok start
  hconstraints : resolveGiven outlook request.constraints = .ok constraints
  objective_responds : ∀ s ∈ outlook.scenarios, ∀ y, y.size = start.size →
    ∃ v, request.objective y s = .ok v
  constraints_respond : ∀ c ∈ constraints, c.Responds start.size

def ScenarioCall.result (call : ScenarioCall) (minimizer : Minimizer Float) :
    Except Fault (ScenarioOutcome Float) :=
  optimizeScenariosWith minimizer call.outlook call.settings call.request

/-- A well-formed robust call. The objective has values at all parameters that may be drawn, and at
the nominal ones. -/
structure RobustCall [Random.Environment] where
  fields : List (String × Datum)
  settings : RobustSettings Float
  set : UncertaintySet Float
  seed : Datum
  stream : Random.Stream
  request : RobustRequest
  start : Vec Float
  reference : Datum
  nominal : Vec Float
  constraints : List (Constraint Float)
  hsettings : RobustSettings.ofFields fields = .ok settings
  hstream : Random.Stream.ofDatum seed = .ok stream
  hstart : Check.array request.start "initial_solution" = .ok start
  hnominal : set.nominalOr reference = .ok nominal
  hconstraints : flattenConstraints request.constraints = .ok constraints
  objective_responds : ∀ y q, y.size = start.size → set.Draws settings.samples q ∨ q = nominal →
    ∃ v, request.objective y q = .ok v
  constraints_respond : ∀ c ∈ constraints, ∀ y, y.size = start.size → ∃ r, c.residual y = .ok r

namespace RobustCall

variable [Random.Environment] (call : RobustCall)

def problem : RobustProblem Float where
  objective := call.request.objective
  constraints := call.constraints
  sense := call.request.sense

/-- What stands against drawing as many points as a round asks for. -/
def sampling : Except Fault Unit :=
  call.set.checkSample (.whole call.settings.samples) call.settings.samples

def result (minimizer : Minimizer Float) : Except Fault (RobustOutcome Float) :=
  optimizeRobustWith minimizer call.set call.settings call.seed call.request call.reference

/-- A round begins with a worst case that is not finite. -/
def Strays (minimizer : Minimizer Float) : Prop :=
  ∃ p, call.problem.Strays minimizer call.settings call.set.sampleCount call.start call.stream p

end RobustCall

end Calls

section Outcomes

variable {minimizer : Minimizer Float}

theorem DecisionCall.reports (call : DecisionCall) (hserves : minimizer.Serves) :
    Reports (call.result minimizer) Outcome.status (call.objective call.start) := by
  have hresult : call.result minimizer =
      Problem.optimize
        { objective := call.objective, gradient := call.gradient, constraints := call.constraints,
          weight := call.sense.sign } minimizer call.settings call.start call.interrupt := by
    simp only [DecisionCall.result, optimizeDecisionWith, call.hstart, call.hconstraints]
    rfl
  have hsteady := (Settings.readFrom_of_ofFields call.hsettings).steady
  obtain ⟨hcomponents, hfinite⟩ := Check.of_array call.hstart
  obtain ⟨outcome, houtcome⟩ := optimize_responds hsteady hserves call.responds hcomponents hfinite
  exact ⟨outcome, hresult.trans houtcome,
    fun hinfinite => numericalError_of_start houtcome hinfinite⟩

theorem PlanCall.reports (call : PlanCall) (hserves : minimizer.Serves) :
    Reports (call.result minimizer) PlanOutcome.status
      (call.plan.total call.start.dimension call.worth call.start.flatten) := by
  have hresult : call.result minimizer =
      call.plan.optimize minimizer call.worth call.start call.constraints call.sense := by
    simp only [PlanCall.result, optimizePlanWith, call.hstate, call.hstart, call.hworth,
      call.hconstraints, bind, Except.bind]
  obtain ⟨hperiods, hsteady⟩ := Plan.of_ofFields call.hplan
  obtain ⟨htimes, hstates⟩ := Plan.size_of_start call.hstart
  obtain ⟨hcomponents, -⟩ := Check.of_array call.hstate
  have hpositive : 0 < call.start.dimension := by
    rw [hstates]
    exact List.length_pos_of_ne_nil (List.isEmpty_eq_false_iff.mp hcomponents)
  rw [hresult]
  exact Plan.optimize_responds hperiods call.worth_responds call.constraints_respond hsteady hserves
    htimes rfl hpositive call.hfinite call.sense

theorem ScenarioCall.reports (call : ScenarioCall) (hserves : minimizer.Serves) :
    Reports (call.result minimizer) ScenarioOutcome.status
      (call.outlook.expected call.request.objective call.start) := by
  have hresolve := call.hconstraints
  simp only [resolveGiven, bind_eq_ok] at hresolve
  obtain ⟨_, hnames, decisions, hdecisions, hbinding⟩ := hresolve
  have hresult : call.result minimizer = call.outlook.optimize minimizer call.settings
      call.request.objective call.start decisions call.request.sense := by
    simp only [ScenarioCall.result, optimizeScenariosWith, call.hstart, hnames, hdecisions]
    rfl
  obtain ⟨⟨scenarios, hscenarios⟩, hsteady⟩ := Outlook.of_prepareScenarios call.hprepared
  obtain ⟨hcomponents, hfinite⟩ := Check.of_array call.hstart
  rw [hresult]
  exact Outlook.optimize_responds call.objective_responds hscenarios hsteady hserves hbinding
    call.constraints_respond rfl hcomponents hfinite call.request.sense

namespace RobustCall

variable [Random.Environment] (call : RobustCall)

theorem result_eq : call.result minimizer = call.problem.optimize minimizer call.settings
    call.set.sampleCount call.nominal call.start call.stream := by
  simp only [result, optimizeRobustWith, call.hstream, call.hstart, call.hnominal,
    call.hconstraints]
  rfl

/-- A sample that cannot be drawn ends the call. -/
theorem result_of_sampling {fault : Fault} (h : call.sampling = .error fault) :
    call.result minimizer = .error fault := by
  have hsample := UncertaintySet.sampleCount_eq_error h call.stream
  rw [result_eq, RobustProblem.optimize, RobustProblem.begin, hsample]
  rfl

theorem result_of_strays (h : call.Strays minimizer) :
    call.result minimizer = .error (.misuse (.notFinite "initial_state")) := by
  obtain ⟨p, hstrays⟩ := h
  rw [result_eq]
  exact hstrays.optimize_eq

/-- The very first round can stray, before anything has been solved. -/
theorem strays_of_first {points : List (Vec Float)} {stream : Random.Stream}
    (hsample : call.set.sampleCount call.settings.samples call.stream = .ok (points, stream))
    {w : Float} {q : Vec Float}
    (hworst : worstCase call.request.sense call.request.objective call.start
      (Vec.distinct points) = .ok (w, q)) (hw : w.isFinite = false) : call.Strays minimizer :=
  RobustProblem.strays_of_first (RobustSettings.of_ofFields call.hsettings).1 hsample hworst hw

theorem result_returns (hserves : minimizer.Serves) (hsampling : call.sampling = .ok ())
    (h : ¬ call.Strays minimizer) : ∃ outcome, call.result minimizer = .ok outcome := by
  obtain ⟨hsamples, hsteady⟩ := RobustSettings.steady_of_ofFields call.hsettings
  obtain ⟨-, hfinite⟩ := Check.of_array call.hstart
  rw [result_eq]
  exact RobustProblem.optimize_responds (UncertaintySet.sampleCount_yields hsampling hsamples)
    call.objective_responds hsteady hserves call.constraints_respond hfinite h

end RobustCall

end Outcomes

/-- With a minimizer that serves, well-formed calls of the solver, for plans and
under scenarios have an outcome, and if what is optimized is not finite at the
start, its status says so. A robust call whose points cannot be drawn ends with
the fault of the sampling. Otherwise it has an outcome exactly if no round
begins with a worst case that is not finite, and it ends with the fault of a
start that is refused if one does; so it does if the worst case over the first
points is not finite at the start. -/
theorem difficulty_reported_unless_worst_case_strays [Random.Environment]
    {minimizer : Minimizer Float} (hserves : minimizer.Serves) :
    (∀ call : DecisionCall,
      Reports (call.result minimizer) Outcome.status (call.objective call.start)) ∧
    (∀ call : PlanCall,
      Reports (call.result minimizer) PlanOutcome.status
        (call.plan.total call.start.dimension call.worth call.start.flatten)) ∧
    (∀ call : ScenarioCall,
      Reports (call.result minimizer) ScenarioOutcome.status
        (call.outlook.expected call.request.objective call.start)) ∧
    ∀ call : RobustCall,
      (∀ fault, call.sampling = .error fault → call.result minimizer = .error fault) ∧
      (call.sampling = .ok () →
        ((∃ outcome, call.result minimizer = .ok outcome) ↔ ¬ call.Strays minimizer) ∧
        (call.Strays minimizer →
          call.result minimizer = .error (.misuse (.notFinite "initial_state"))) ∧
        ∀ points stream w q,
          call.set.sampleCount call.settings.samples call.stream = .ok (points, stream) →
          worstCase call.request.sense call.request.objective call.start (Vec.distinct points) =
            .ok (w, q) →
          w.isFinite = false →
          call.result minimizer = .error (.misuse (.notFinite "initial_state"))) := by
  refine ⟨fun call => call.reports hserves, fun call => call.reports hserves,
    fun call => call.reports hserves, ?_⟩
  intro call
  refine ⟨fun _ hfault => call.result_of_sampling hfault, ?_⟩
  intro hsampling
  refine ⟨⟨?_, call.result_returns hserves hsampling⟩, call.result_of_strays, ?_⟩
  · rintro ⟨outcome, houtcome⟩ hstrays
    rw [call.result_of_strays hstrays] at houtcome
    cases houtcome
  · intro points stream w q hsample hworst hw
    exact call.result_of_strays (call.strays_of_first hsample hworst hw)

section Undefined

def usualSettings : Settings Float where
  maxIterations := 100
  tolerance := 1e-6
  constraintTolerance := 1e-6
  gradientTolerance := 1e-6
  maxInnerIterations := 500
  initialPenalty := 10.0
  penaltyIncrease := 10.0
  maxPenalty := 1e6
  minDerivative := 1e-12
  differenceStep := 1e-6
  recordHistory := false

def undefinedValue : Float := 0.0 / 0.0

def undefinedDecision : DecisionCall where
  fields := []
  settings := usualSettings
  objective _ := .ok undefinedValue
  gradient := none
  given := .list [.real 0.5]
  start := ⟨[0.5]⟩
  items := .group []
  constraints := []
  sense := .minimize
  interrupt _ := false
  hsettings := rfl
  hstart := rfl
  hconstraints := rfl
  responds :=
    { objective := fun _ _ => ⟨_, rfl⟩
      residual := by simp
      gradient := by simp
      gradients := by simp }

def undefinedPlan : PlanCall where
  fields := [("number_of_periods", .whole 2)]
  plan := ⟨2, 0.0, usualSettings⟩
  objective := ⟨some 1, fun _ => .ok undefinedValue, fun _ _ => .error .wrongKind⟩
  periodAware := none
  worth _ _ := .ok undefinedValue
  state := .list [.real 0.5]
  given := .null
  first := ⟨[0.5]⟩
  start := ⟨⟨[0.5]⟩, [⟨[0.5]⟩], by simp⟩
  items := .group []
  constraints := []
  sense := .minimize
  hplan := rfl
  hstate := rfl
  hstart := rfl
  hfinite := rfl
  hworth := rfl
  hconstraints := rfl
  worth_responds _ _ _ _ := ⟨_, rfl⟩
  constraints_respond := by simp

def sureScenario : Scenario Float := ⟨.ofText "sure", 1.0, []⟩

theorem sureScenario_accepted :
    Outlook.ofScenarios [sureScenario] = .ok ⟨[sureScenario], [1.0]⟩ := by
  have htotal : Scalar.total [sureScenario.probability] = 1.0 := by decide +kernel
  have hweights : normalizedWeights [sureScenario.probability] = .ok [1.0] := by
    change (if Scalar.atMost (Scalar.total [sureScenario.probability]) 0 then _
      else Except.ok [sureScenario.probability / Scalar.total [sureScenario.probability]]) = _
    have hpositive : Scalar.atMost (1.0 : Float) 0 = false := by decide +kernel
    have hshare : sureScenario.probability / 1.0 = 1.0 := by decide +kernel
    rw [htotal, hpositive, hshare]
    rfl
  exact Outlook.ofScenarios_eq_ok.mpr ⟨by simp, rfl, rfl, hweights⟩

def undefinedScenario : ScenarioCall where
  scenarios := [.inl sureScenario]
  fields := []
  outlook := ⟨[sureScenario], [1.0]⟩
  settings := usualSettings
  request :=
    { objective := fun _ _ => .ok undefinedValue
      start := .list [.real 0.5]
      constraints := .group []
      sense := .minimize }
  start := ⟨[0.5]⟩
  constraints := []
  hprepared :=
    bind_eq_ok.mpr ⟨.ok usualSettings, rfl, bind_eq_ok.mpr ⟨_, sureScenario_accepted, rfl⟩⟩
  hstart := rfl
  hconstraints := rfl
  objective_responds _ _ _ _ := ⟨_, rfl⟩
  constraints_respond := by simp

def onlyOne : PointSet Float := ⟨⟨[1.0]⟩, [], by simp⟩

def undefinedRobust : RobustCall where
  fields := []
  settings := ⟨50, 100, 1e-6, usualSettings⟩
  set := .finite onlyOne
  seed := .null
  stream := .ofSeed [0]
  request :=
    { objective := fun _ _ => .ok undefinedValue
      start := .list [.real 0.5]
      constraints := .group []
      sense := .minimize }
  start := ⟨[0.5]⟩
  reference := .null
  nominal := ⟨[1.0]⟩
  constraints := []
  hsettings := rfl
  hstream := rfl
  hstart := rfl
  hnominal := rfl
  hconstraints := rfl
  objective_responds _ _ _ _ := ⟨_, rfl⟩
  constraints_respond := by simp

/-- A finite set of parameters and a finite start make a well-formed call, and
yet there is no outcome, whatever the minimizer is. -/
theorem undefinedRobust_has_no_outcome :
    undefinedRobust.sampling = .ok () ∧
      ∀ minimizer, undefinedRobust.result minimizer =
        .error (.misuse (.notFinite "initial_state")) := by
  refine ⟨rfl, ?_⟩
  intro minimizer
  apply undefinedRobust.result_of_strays
  exact undefinedRobust.strays_of_first rfl rfl (by decide +kernel)

/-- Of the four calls with an objective that is defined nowhere, three report
it with the minimizer that a solve uses, and the robust one does not. -/
theorem undefined_objective_reported_by_three :
    (∃ outcome, undefinedDecision.result (QuasiNewton.minimizer usualSettings) = .ok outcome ∧
      outcome.status = .numericalError) ∧
    (∃ outcome, undefinedPlan.result (QuasiNewton.minimizer usualSettings) = .ok outcome ∧
      outcome.status = .numericalError) ∧
    (∃ outcome, undefinedScenario.result (QuasiNewton.minimizer usualSettings) = .ok outcome ∧
      outcome.status = .numericalError) ∧
    undefinedRobust.result (QuasiNewton.minimizer usualSettings) =
      .error (.misuse (.notFinite "initial_state")) := by
  have hundefined : undefinedValue.isFinite = false := by decide +kernel
  obtain ⟨hdecision, hplan, hscenario, hrobust⟩ := difficulty_reported_unless_worst_case_strays
    (QuasiNewton.minimizer_serves usualSettings)
  refine ⟨?_, ?_, ?_, ?_⟩
  · obtain ⟨outcome, houtcome, hstatus⟩ := hdecision undefinedDecision
    exact ⟨outcome, houtcome, hstatus ⟨undefinedValue, rfl, hundefined⟩⟩
  · obtain ⟨outcome, houtcome, hstatus⟩ := hplan undefinedPlan
    exact ⟨outcome, houtcome, hstatus ⟨_, rfl, by decide +kernel⟩⟩
  · obtain ⟨outcome, houtcome, hstatus⟩ := hscenario undefinedScenario
    exact ⟨outcome, houtcome, hstatus ⟨_, rfl, by decide +kernel⟩⟩
  · obtain ⟨-, -, hfirst⟩ := (hrobust undefinedRobust).2 rfl
    exact hfirst _ _ undefinedValue _ rfl rfl hundefined

end Undefined

end Optima
