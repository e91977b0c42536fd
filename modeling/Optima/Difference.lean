import Optima.Vec

/-!
Derivatives by central differences. The step of a coordinate grows with its size. All differences
are taken on one working copy of the point: a component is moved forward, moved backward and put
back before the next one is moved.
-/

namespace Optima

variable {α : Type} [Scalar α]

def Vec.set (v : Vec α) (i : Nat) (x : α) : Vec α := ⟨v.toList.set i x⟩

/-- Step of a coordinate at `x`: proportional to its magnitude, but no less than `step`. -/
def differenceStep (step x : α) : α := step * Scalar.larger 1 (Scalar.magnitude x)

/-- Difference quotient of `f` along coordinate `i`, whose component is `x`, and the working copy as
it is left behind. A step that vanished divides by zero; only a coordinate larger than one carries
it on as an undefined slope. -/
def differenceAlong (f : Vec α → Except Fault α) (step : α) (work : Vec α) (i : Nat) (x : α) :
    Except Fault (α × Vec α) := do
  let h := differenceStep step x
  let work := work.set i (x + h)
  let forward ← f work
  let work := work.set i (x - h)
  let backward ← f work
  let work := work.set i x
  let gap := 2.0 * h
  if Scalar.same gap 0 && !Scalar.less 1 (Scalar.magnitude x) then throw .divisionByZero
  return ((forward - backward) / gap, work)

def differencesAlong (f : Vec α → Except Fault α) (step : α) :
    (coordinates : List (α × Nat)) → (work : Vec α) → Except Fault (List α)
  | [], _ => return []
  | (x, i) :: rest, work => do
    let (slope, work) ← differenceAlong f step work i x
    return slope :: (← differencesAlong f step rest work)

def numericalGradient (f : Vec α → Except Fault α) (step : α) (point : Vec α) :
    Except Fault (Vec α) := do
  return ⟨← differencesAlong f step point.toList.zipIdx point⟩

end Optima
