import Optima.Solver.Lagrangian
import Optima.Solver.Settings
import Optima.Solver.Status

/-!
The outer iteration. Each round minimizes the augmented Lagrangian, moves the multipliers and raises
the penalty when the violation stalls, until the tolerances are met, something is not finite, the
caller stops it or the budget is used up. The minimizer is an argument: the iteration only uses the
point and the gradient it returns.
-/

namespace Optima

/-- The state of a solve after one iteration. -/
structure Snapshot (α : Type) where
  iteration : Nat
  objective : α
  violation : α
  gradientNorm : α
  penalty : α

/-- What a solve reports. `delivered` holds the snapshots that were shown to the caller. -/
structure Outcome (α : Type) where
  status : Status
  solution : Vec α
  objective : α
  iterations : Nat
  violation : α
  multipliers : List α
  history : List (Snapshot α)
  delivered : List (Snapshot α)

def Outcome.converged {α : Type} (o : Outcome α) : Bool := o.status.isSuccessful

/-- A minimizer gets a function, its gradient and a start, and returns a point and the gradient
there. -/
abbrev Minimizer (α : Type) :=
  (Vec α → Except Fault α) → (Vec α → Except Fault (Vec α)) → Vec α → Except Fault (Vec α × Vec α)

/-- What is carried from one iteration to the next. -/
structure Progress (α : Type) where
  lagrangian : Lagrangian α
  point : Vec α
  objective : α
  violation : α
  /-- Objective and violation of the previous iteration. -/
  previous : Option (α × α) := none
  iterations : Nat := 0
  history : List (Snapshot α) := []
  delivered : List (Snapshot α) := []

/-- What an iteration comes to before it is judged: a number that is not finite, or moved
multipliers and a snapshot. -/
inductive Advance (α : Type) where
  | broken (progress : Progress α)
  | moved (progress : Progress α) (snapshot : Snapshot α)

inductive Verdict (α : Type) where
  | proceed (progress : Progress α)
  | stop (status : Status) (progress : Progress α)

variable {α : Type} [Scalar α]

/-- The change of the objective is no more than the tolerance allows, relative to the previous
objective. -/
def isStalled (tolerance : α) (previous : Option (α × α)) (objective : α) : Bool :=
  match previous with
  | some (old, _) =>
    Scalar.atMost (Scalar.magnitude (objective - old))
      (tolerance * Scalar.larger 1 (Scalar.magnitude old))
  | none => false

/-- The violation did not fall to a quarter of the previous one. -/
def isSticky (previous : Option (α × α)) (violation : α) : Bool :=
  match previous with
  | some (_, old) => Scalar.less (0.25 * old) violation
  | none => false

def Settings.raised (settings : Settings α) (penalty : α) : α :=
  Scalar.smaller (penalty * settings.penaltyIncrease) settings.maxPenalty

/-- The penalty that an iteration leaves behind: raised if the violation is above the tolerance and
stalls. -/
def nextPenalty (settings : Settings α) (p : Progress α) : α :=
  if Scalar.atMost p.violation settings.constraintTolerance then p.lagrangian.penalty
  else if isSticky p.previous p.violation then settings.raised p.lagrangian.penalty
  else p.lagrangian.penalty

def Progress.shown (settings : Settings α) (p : Progress α) (snapshot : Snapshot α) : Progress α :=
  { p with
    lagrangian := { p.lagrangian with penalty := nextPenalty settings p }
    delivered := p.delivered ++ [snapshot] }

/-- Shows a snapshot to the caller, who may stop the solve; if it goes on, the measured numbers are
the previous ones of the next iteration. -/
def deliver (settings : Settings α) (interrupt : Snapshot α → Bool) (p : Progress α)
    (snapshot : Snapshot α) : Verdict α :=
  if interrupt snapshot then .stop .interrupted (p.shown settings snapshot)
  else .proceed { p.shown settings snapshot with previous := some (p.objective, p.violation) }

def judge (settings : Settings α) (interrupt : Snapshot α → Bool) (p : Progress α)
    (snapshot : Snapshot α) : Except Fault (Verdict α) := do
  if Scalar.atMost p.violation settings.constraintTolerance then
    if Scalar.atMost snapshot.gradientNorm settings.gradientTolerance ||
        isStalled settings.tolerance p.previous p.objective then
      return .stop .optimal p
  else if ← Lagrangian.hasDegenerateViolation p.lagrangian.step settings.constraintTolerance
      settings.minDerivative p.point p.lagrangian.problem.constraints then
    return .stop .numericalError p
  return deliver settings interrupt p snapshot

/-- What an iteration does up to the moved multipliers: the minimizer's point is taken over, unless
it is not finite, and the multipliers move, unless a number measured there is not finite. -/
def advance (minimizer : Minimizer α) (settings : Settings α) (p : Progress α) :
    Except Fault (Advance α) := do
  let L := p.lagrangian
  let iteration := p.iterations + 1
  let (candidate, slope) ← minimizer L.value L.gradient p.point
  if !candidate.isFinite then return .broken { p with iterations := iteration }
  let objective ← L.problem.objective candidate
  let violation ← L.maxViolation candidate
  let moved := { p with point := candidate, objective, violation, iterations := iteration }
  if !(Scalar.isFinite objective && Scalar.isFinite violation) then return .broken moved
  let updated ← L.updateMultipliers candidate
  let snapshot : Snapshot α :=
    { iteration, objective, violation, gradientNorm := slope.norm, penalty := L.penalty }
  let history := if settings.recordHistory then p.history ++ [snapshot] else p.history
  return .moved { moved with lagrangian := updated, history } snapshot

def iterate (minimizer : Minimizer α) (settings : Settings α) (interrupt : Snapshot α → Bool)
    (p : Progress α) : Except Fault (Verdict α) := do
  match ← advance minimizer settings p with
  | .broken p => return .stop .numericalError p
  | .moved p snapshot => judge settings interrupt p snapshot

def run (minimizer : Minimizer α) (settings : Settings α) (interrupt : Snapshot α → Bool) :
    Nat → Progress α → Except Fault (Status × Progress α)
  | 0, p => .ok (.maxIterations, p)
  | budget + 1, p => do
    match ← iterate minimizer settings interrupt p with
    | .proceed p => run minimizer settings interrupt budget p
    | .stop status p => return (status, p)

omit [Scalar α] in
def Progress.outcome (status : Status) (p : Progress α) : Outcome α where
  status := status
  solution := p.point
  objective := p.objective
  iterations := p.iterations
  violation := p.violation
  multipliers := p.lagrangian.multipliersInOrder
  history := p.history
  delivered := p.delivered

/-- Solves a problem from a start. An objective that is not finite at the start ends the solve
before the first iteration. -/
def Problem.solve (problem : Problem α) (minimizer : Minimizer α) (settings : Settings α)
    (start : Vec α) (interrupt : Snapshot α → Bool) : Except Fault (Outcome α) := do
  let lagrangian := Lagrangian.start problem settings.differenceStep settings.initialPenalty
  let objective ← problem.objective start
  let violation ← lagrangian.maxViolation start
  let p : Progress α := { lagrangian, point := start, objective, violation }
  if !Scalar.isFinite objective then return p.outcome .numericalError
  let (status, p) ← run minimizer settings interrupt settings.maxIterations p
  return p.outcome status

/-- Solves a problem from a start that is checked first: it must have components, all finite. -/
def Problem.optimize (problem : Problem α) (minimizer : Minimizer α) (settings : Settings α)
    (start : Vec α) (interrupt : Snapshot α → Bool) : Except Fault (Outcome α) := do
  if start.toList.isEmpty then throw (.misuse (.empty "initial_state"))
  if !start.isFinite then throw (.misuse (.notFinite "initial_state"))
  problem.solve minimizer settings start interrupt

end Optima
