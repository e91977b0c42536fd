import Optima.Proofs.Robust.OneRound
import Optima.Proofs.Uncertainty.FlatBox
import Optima.Proofs.Uncertainty.Points

/-!
Uncertainty that one sample exhausts: finite sets of points, and boxes without width. A robust
optimization makes one round. Over a finite set the worst case that is reported is the one over all
points given, repetitions or not; in a box without width it is the nominal case.
-/

namespace Optima

open Scalar RobustProblem

section Calls

/-- An accepted call over a list of points, with an objective that is finite at them and does not
tell equal ones apart. -/
structure PointsCall where
  points : Datum
  index : Datum
  fields : List (String × Datum)
  request : RobustRequest
  set : PointSet Float
  nominal : Vec Float
  settings : RobustSettings Float
  start : Vec Float
  constraints : List (Constraint Float)
  hset : PointSet.ofDatum points = .ok set
  hindex : nominalPoint set index = .ok (.ok nominal)
  hsettings :
    RobustSettings.ofFields (("samples_per_iteration", .whole set.points.length) :: fields) =
      .ok settings
  hstart : Check.array request.start "initial_solution" = .ok start
  hconstraints : flattenConstraints request.constraints = .ok constraints
  measures : Measures request.objective start.size (· ∈ set.points)

namespace PointsCall

variable (call : PointsCall)

def result [Random.Environment] (minimizer : Settings Float → Minimizer Float) :
    Except Fault (RobustOutcome Float) :=
  optimizeOverPointsWith minimizer call.points call.index call.fields call.request

def problem : RobustProblem Float where
  objective := call.request.objective
  constraints := call.constraints
  sense := call.request.sense

structure Responds : Prop where
  objective : ∀ y q, y.size = call.start.size → q ∈ call.set.points →
    ∃ v, call.request.objective y q = .ok v
  constraints : ∀ c ∈ call.constraints, ∀ y, y.size = call.start.size → ∃ r, c.residual y = .ok r

end PointsCall

/-- An accepted call over a box whose deviations are zero, with the nominal point of the box. Of the
source it is asked that the numbers from the unit interval are finite. -/
structure FlatCall (σ : Type) where
  center : Datum
  deviations : Datum
  fields : List (String × Datum)
  given : Datum
  problem : RobustProblem Float
  source : Source σ Float
  box : Box Float
  settings : RobustSettings Float
  start : Vec Float
  hbox : Box.ofData center deviations = .ok box
  hsettings : RobustSettings.ofFields fields = .ok settings
  hstart : Check.array given "initial_solution" = .ok start
  flat : ∀ d ∈ box.deviations.toList, same d 0 = true
  units : ∀ s, (source.unit s).1.isFinite = true
  measures : Measures problem.objective start.size fun q => q.same box.nominal = true

namespace FlatCall

variable {σ : Type} (call : FlatCall σ)

def result (minimizer : Minimizer Float) (state : σ) : Except Fault (RobustOutcome Float) :=
  call.problem.optimize minimizer call.settings ((UncertaintySet.box call.box).sample call.source)
    call.box.nominal call.start state

structure Responds : Prop where
  objective : ∀ y q, y.size = call.start.size → q.same call.box.nominal = true →
    ∃ v, call.problem.objective y q = .ok v
  constraints : ∀ c ∈ call.problem.constraints, ∀ y, y.size = call.start.size →
    ∃ r, c.residual y = .ok r

end FlatCall

end Calls

namespace PointsCall

variable (call : PointsCall) {minimizer : Settings Float → Minimizer Float}

theorem sampleCount_eq (set : PointSet Float) (count : Nat) (stream : Random.Stream) :
    (UncertaintySet.finite set).sampleCount count stream = .ok (set.points, stream) := rfl

theorem samplesAmong : SamplesAmong (UncertaintySet.finite call.set).sampleCount
    call.settings.samples (Vec.distinct call.set.points) := by
  intro s fresh s' hfresh q hq
  rw [sampleCount_eq] at hfresh
  cases hfresh
  apply Vec.exists_same_distinct hq
  apply Vec.same_self
  intro c hc
  exact Binary64.defined_of_isFinite
    (List.all_eq_true.mp (PointSet.of_ofDatum call.hset q hq).1 c hc)

theorem result_eq [Random.Environment] : call.result minimizer =
    call.problem.optimize (minimizer call.settings.solver) call.settings
      (UncertaintySet.finite call.set).sampleCount call.nominal call.start
      Random.Environment.unseeded := by
  have hmember := nominalPoint_mem call.hindex
  obtain ⟨hfinite, hcomponents⟩ := PointSet.of_ofDatum call.hset _ hmember
  have hnominal : (UncertaintySet.finite call.set).nominalOr (.vector call.nominal.toList) =
      .ok call.nominal := by
    have hdimension : (UncertaintySet.finite call.set).dimension = call.nominal.size :=
      (PointSet.size_eq hmember).symm
    simp only [UncertaintySet.nominalOr, hdimension]
    exact Check.arrayOf_vector hfinite hcomponents _
  simp only [result, optimizeOverPointsWith, optimizeRobustWith, call.hset, call.hindex,
    call.hsettings, call.hstart, call.hconstraints, bind, Except.bind, hnominal,
    Random.Stream.ofDatum]
  rfl

/-- With a minimizer that serves, the call has an outcome. -/
theorem result_returns [Random.Environment]
    (hserves : (minimizer call.settings.solver).Serves) (hresponds : call.Responds) :
    ∃ outcome, call.result minimizer = .ok outcome := by
  obtain ⟨-, hsteady⟩ := RobustSettings.steady_of_ofFields call.hsettings
  obtain ⟨-, hfinite⟩ := Check.of_array call.hstart
  have hsample : ((UncertaintySet.finite call.set).sampleCount call.settings.samples).Yields
      fun points => points ≠ [] ∧ ∀ q ∈ points, q ∈ call.set.points :=
    fun stream => ⟨_, stream, rfl, List.cons_ne_nil _ _, fun _ hq => hq⟩
  rw [result_eq]
  refine optimize_responds_of_samplesAmong hsample ?_ call.measures ?_ hsteady hserves
    hresponds.constraints hfinite
  · intro points stream hpoints
    rw [sampleCount_eq] at hpoints
    cases hpoints
    exact call.samplesAmong
  · rintro y q hy (hq | rfl)
    · exact hresponds.objective y q hy hq
    · exact hresponds.objective y _ hy (nominalPoint_mem call.hindex)

end PointsCall

/-- The nominal point of an accepted box is finite. -/
theorem Box.finite_of_ofData {center deviations : Datum} {box : Box Float}
    (h : Box.ofData center deviations = .ok box) : box.nominal.isFinite = true := by
  simp only [ofData, bind_eq_ok] at h
  obtain ⟨nominal, hnominal, _, -, h⟩ := h
  simp only [ofVectors] at h
  split at h
  · split at h
    · cases h
      exact (Check.of_array hnominal).2
    · cases h
  · cases h

namespace FlatCall

variable {σ : Type} (call : FlatCall σ) {minimizer : Minimizer Float} {state : σ}

theorem nominal_finite : call.box.nominal.isFinite = true := Box.finite_of_ofData call.hbox

theorem sample_yields :
    ((UncertaintySet.box call.box).sample call.source call.settings.samples).Yields
      fun points => points ≠ [] ∧ ∀ q ∈ points, q.same call.box.nominal = true := by
  obtain ⟨hsamples, -⟩ := RobustSettings.steady_of_ofFields call.hsettings
  exact Box.sample_yields_same call.nominal_finite call.flat call.units hsamples

theorem samplesAmong {points : List (Vec Float)} {state' : σ}
    (hpoints : (UncertaintySet.box call.box).sample call.source call.settings.samples state =
      .ok (points, state')) :
    SamplesAmong ((UncertaintySet.box call.box).sample call.source) call.settings.samples
      (Vec.distinct points) := by
  intro s fresh s' hfresh q hq
  obtain ⟨hne, hall⟩ := call.sample_yields.value hpoints
  obtain ⟨u, hu⟩ := List.exists_mem_of_ne_nil _ (Vec.distinct_ne_nil hne)
  have hknown := hall u (Vec.mem_of_mem_distinct hu)
  exact ⟨u, hu, Vec.same_trans ((call.sample_yields.value hfresh).2 q hq) (Vec.same_symm hknown)⟩

theorem nominal_same_self : call.box.nominal.same call.box.nominal = true := by
  apply Vec.same_self
  intro c hc
  exact Binary64.defined_of_isFinite (List.all_eq_true.mp call.nominal_finite c hc)

/-- With a minimizer that serves, the call has an outcome. -/
theorem result_returns (hserves : minimizer.Serves) (hresponds : call.Responds) :
    ∃ outcome, call.result minimizer state = .ok outcome := by
  obtain ⟨-, hsteady⟩ := RobustSettings.steady_of_ofFields call.hsettings
  obtain ⟨-, hfinite⟩ := Check.of_array call.hstart
  refine optimize_responds_of_samplesAmong call.sample_yields
    (fun _ _ hpoints => call.samplesAmong hpoints) call.measures ?_ hsteady hserves
    hresponds.constraints hfinite
  rintro y q hy (hq | rfl)
  · exact hresponds.objective y q hy hq
  · exact hresponds.objective y _ hy call.nominal_same_self

end FlatCall

section Parameters

/-- The parameter itself is finite at finite parameters, and equal at equal ones. -/
theorem parameter_measures {U : Vec Float → Prop} (dimension : Nat)
    (h : ∀ q, U q → q.size = 1 ∧ q.isFinite = true) :
    Measures (fun _ q => q.get 0) dimension U where
  finite _ q _ _ hq := by
    obtain ⟨hsize, hfinite⟩ := h q hq
    obtain ⟨a, rfl⟩ := Vec.exists_of_size_one hsize
    exact ⟨a, rfl, List.all_eq_true.mp hfinite a List.mem_cons_self⟩
  equal _ p q _ _ hp hq hsame v w hv hw := by
    obtain ⟨a, rfl⟩ := Vec.exists_of_size_one (h p hp).1
    obtain ⟨b, rfl⟩ := Vec.exists_of_size_one (h q hq).1
    cases hv
    cases hw
    cases Vec.same_iff_forall₂.mp hsame with
    | cons hfirst _ => exact hfirst

def restingAtOne : Minimizer Float := fun _ _ _ => .ok (⟨[1.0, 1.0]⟩, ⟨[0.0, 0.0]⟩)

def defaultSettings (samples : Nat) : RobustSettings Float where
  rounds := 50
  samples
  tolerance := 1e-6
  solver :=
    { maxIterations := 100, tolerance := 1e-6, constraintTolerance := 1e-6,
      gradientTolerance := 1e-6, maxInnerIterations := 500, initialPenalty := 10.0,
      penaltyIncrease := 10.0, maxPenalty := 1e6, minDerivative := 1e-12, differenceStep := 1e-6,
      recordHistory := false }

/-- Four points, two of which repeat earlier ones. -/
def repeatedSet : PointSet Float := ⟨⟨[0.0]⟩, [⟨[1.0]⟩, ⟨[-0.0]⟩, ⟨[1.0]⟩], by decide⟩

theorem repeatedSet_measures :
    Measures (fun _ q => q.get 0) 1 (· ∈ repeatedSet.points) := by
  apply parameter_measures
  intro q hq
  simp only [repeatedSet, PointSet.points, List.mem_cons, List.not_mem_nil, or_false] at hq
  rcases hq with rfl | rfl | rfl | rfl
  · exact ⟨rfl, by decide +kernel⟩
  · exact ⟨rfl, by decide +kernel⟩
  · exact ⟨rfl, by decide +kernel⟩
  · exact ⟨rfl, by decide +kernel⟩

def repeatedPoints : PointsCall where
  points := .list [.list [.real 0.0], .list [.real 1.0], .list [.real (-0.0)], .list [.real 1.0]]
  index := .whole 2
  fields := []
  request := ⟨fun _ q => q.get 0, .list [.real 1.0], .group [], .minimize⟩
  set := repeatedSet
  nominal := ⟨[-0.0]⟩
  settings := defaultSettings 4
  start := ⟨[1.0]⟩
  constraints := []
  hset := rfl
  hindex := rfl
  hsettings := rfl
  hstart := rfl
  hconstraints := rfl
  measures := repeatedSet_measures

def halfway : Source Unit Float where
  unit s := (0.5, s)
  normal s := (0.0, s)
  position _ s := (0, s)

def knownBox : Box Float := ⟨⟨[1.0]⟩, ⟨[0.0]⟩, rfl, by decide +kernel⟩

theorem knownBox_measures :
    Measures (fun _ q => q.get 0) 1 fun q => q.same knownBox.nominal = true := by
  apply parameter_measures
  rintro ⟨components⟩ hsame
  cases Vec.same_iff_forall₂.mp (Vec.same_symm hsame) with
  | cons hfirst hrest =>
      cases hrest
      have hfinite := Binary64.isFinite_of_same (by decide +kernel) hfirst
      exact ⟨rfl, List.all_eq_true.mpr (List.forall_mem_singleton.mpr hfinite)⟩

/-- The known parameter. Two corners are listed, and one point is drawn. -/
def knownParameter : FlatCall Unit where
  center := .list [.real 1.0]
  deviations := .list [.real 0.0]
  fields := [("samples_per_iteration", .whole 3)]
  given := .list [.real 1.0]
  problem := ⟨fun _ q => q.get 0, [], .maximize⟩
  source := halfway
  box := knownBox
  settings := defaultSettings 3
  start := ⟨[1.0]⟩
  hbox := rfl
  hsettings := rfl
  hstart := rfl
  flat := by decide +kernel
  units := by decide +kernel
  measures := knownBox_measures

end Parameters

end Optima
