import Optima.Random.Source
import Optima.Robust.Epigraph

/-!
The best decision in the worst case. Rounds alternate between two steps: the problem over the points
found so far is solved, and new points are sampled, of which those join that are worse at the new
decision than all points before. The rounds end when no point joins, when a problem has no solution,
or when the budget is used up.
-/

namespace Optima

/-- A robust problem; the objective depends on the decision and on the uncertain parameters. -/
structure RobustProblem (α : Type) where
  objective : Vec α → Vec α → Except Fault α
  constraints : List (Constraint α)
  sense : Sense

structure RobustSettings (α : Type) where
  rounds : Nat
  samples : Nat
  tolerance : α
  solver : Settings α

/-- What is carried from round to round. -/
structure RobustProgress (σ α : Type) where
  decision : Vec α
  workingSet : List (Vec α)
  rounds : Nat
  state : σ

inductive RobustVerdict (σ α : Type) where
  | proceed (progress : RobustProgress σ α)
  | stop (status : Status) (progress : RobustProgress σ α)

/-- What a robust optimization reports. -/
structure RobustOutcome (α : Type) where
  status : Status
  solution : Vec α
  worstObjective : α
  nominalObjective : α
  worstParameters : Vec α
  iterations : Nat
  /-- How many points the worst case is taken over. -/
  evaluated : Nat

def RobustOutcome.converged {α : Type} (o : RobustOutcome α) : Bool := o.status.isSuccessful

variable {σ α : Type} [Scalar α]

def RobustOutcome.robustnessCost (o : RobustOutcome α) : α :=
  Scalar.magnitude (o.nominalObjective - o.worstObjective)

namespace RobustProblem

/-- What a new point must exceed to join: the worst value so far and a margin. -/
def threshold (problem : RobustProblem α) (tolerance worst : α) : α :=
  let margin := tolerance * Scalar.larger 1 (Scalar.magnitude worst)
  match problem.sense with
  | .minimize => worst + margin
  | .maximize => worst - margin

/-- The sampled points that are new and exceed the threshold at the decision. -/
def newcomers (problem : RobustProblem α) (x : Vec α) (threshold : α)
    (known fresh : List (Vec α)) : Except Fault (List (Vec α)) :=
  fresh.filterM fun p => do
    if known.any (Vec.same p) then return false
    return problem.sense.isWorse (← problem.objective x p) threshold

def solveOver (problem : RobustProblem α) (minimizer : Minimizer α) (settings : Settings α)
    (points : List (Vec α)) (x : Vec α) : Except Fault (Outcome α) := do
  let start ← liftedStart problem.sense problem.objective points x
  (epigraph x.size problem.sense problem.objective problem.constraints points).optimize
    minimizer settings start fun _ => false

def round (problem : RobustProblem α) (minimizer : Minimizer α) (settings : RobustSettings α)
    (sample : Nat → Draw σ (List (Vec α))) (p : RobustProgress σ α) :
    Except Fault (RobustVerdict σ α) := do
  let p := { p with rounds := p.rounds + 1 }
  let solved ← problem.solveOver minimizer settings.solver p.workingSet p.decision
  if !solved.status.hasSolution then return .stop solved.status p
  let x := decisionOf p.decision.size solved.solution
  let (worst, _) ← worstCase problem.sense problem.objective x p.workingSet
  let (fresh, state) ← sample settings.samples p.state
  let p := { p with decision := x, state }
  let found ← problem.newcomers x (problem.threshold settings.tolerance worst) p.workingSet fresh
  if found.isEmpty then return .stop solved.status p
  return .proceed { p with workingSet := p.workingSet ++ Vec.distinct found }

def run (problem : RobustProblem α) (minimizer : Minimizer α) (settings : RobustSettings α)
    (sample : Nat → Draw σ (List (Vec α))) :
    Nat → RobustProgress σ α → Except Fault (Status × RobustProgress σ α)
  | 0, p => .ok (.maxIterations, p)
  | budget + 1, p => do
    match ← problem.round minimizer settings sample p with
    | .proceed p => run problem minimizer settings sample budget p
    | .stop status p => return (status, p)

def begin (settings : RobustSettings α) (sample : Nat → Draw σ (List (Vec α))) (x : Vec α)
    (state : σ) : Except Fault (RobustProgress σ α) := do
  let (points, state) ← sample settings.samples state
  return { decision := x, workingSet := Vec.distinct points, rounds := 0, state }

/-- What is reported at the end: the worst case is taken over all points found. -/
def conclude (problem : RobustProblem α) (nominal : Vec α) (status : Status)
    (p : RobustProgress σ α) : Except Fault (RobustOutcome α) := do
  let (worst, parameters) ←
    worstCase problem.sense problem.objective p.decision p.workingSet
  return { status
           solution := p.decision
           worstObjective := worst
           nominalObjective := ← problem.objective p.decision nominal
           worstParameters := parameters
           iterations := p.rounds
           evaluated := p.workingSet.length }

def optimize (problem : RobustProblem α) (minimizer : Minimizer α) (settings : RobustSettings α)
    (sample : Nat → Draw σ (List (Vec α))) (nominal x : Vec α) (state : σ) :
    Except Fault (RobustOutcome α) := do
  let p ← begin settings sample x state
  let (status, p) ← problem.run minimizer settings sample settings.rounds p
  problem.conclude nominal status p

end RobustProblem

end Optima
