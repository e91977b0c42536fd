import Optima.Vec

/-!
Search along a descent direction for a step that decreases the function enough and flattens its
slope enough. The search keeps the best step so far and an interval that holds an acceptable one;
each trial is the minimum of a cubic or a line fitted to what is known at the ends.
-/

namespace Optima.LineSearch

/-- A step along the direction with the value and the slope of the function there. -/
structure Node where
  step : Float
  value : Float
  slope : Float

structure Probe where
  node : Node
  point : Vec Float
  gradient : Vec Float

/-- Fraction of the initial slope that the decrease must reach. -/
def decrease : Float := 1e-3

/-- Fraction of the initial slope that the slope must fall to. -/
def flatness : Float := 0.9

def resolution : Float := 0.1

def longest : Float := 1e10

def trials : Nat := 20

/-- The best step, the other end of the interval, and the bounds for the next trial. -/
structure State where
  start : Node
  best : Node
  other : Node
  bracketed : Bool
  /-- Still looking for a step with enough decrease and a slope that does not fall. -/
  firstStage : Bool
  width : Float
  oldWidth : Float
  least : Float
  most : Float

def State.initial (value slope step : Float) : State :=
  let start : Node := ⟨0.0, value, slope⟩
  { start, best := start, other := start, bracketed := false, firstStage := true
    width := longest, oldWidth := 2.0 * longest, least := 0.0, most := 5.0 * step }

def bounded (least most x : Float) : Float :=
  let x := if x < least then least else x
  if most < x then most else x

def larger (x y : Float) : Float := if x < y then y else x

def smaller (x y : Float) : Float := if y < x then y else x

/-- Twice the inclination of the cubic through two nodes, and the scale of its root. -/
def cubicShape (a b : Node) : Float × Float × Float :=
  let theta := 3.0 * (a.value - b.value) / (b.step - a.step) + a.slope + b.slope
  let scale := larger (larger theta.abs a.slope.abs) b.slope.abs
  (theta, scale, (theta / scale) * (theta / scale) - (a.slope / scale) * (b.slope / scale))

/-- The next trial, between or beyond the best step and the current one, and whether an acceptable
step is now known to be enclosed. -/
def nextStep (best other now : Node) (bracketed : Bool) (least most : Float) : Float × Bool :=
  let direction := now.slope * (best.slope / best.slope.abs)
  let gap := now.step - best.step
  if best.value < now.value then
    let (theta, scale, radicand) := cubicShape best now
    let root := scale * radicand.sqrt
    let root := if now.step < best.step then -root else root
    let ratio := ((root - best.slope) + theta) / (((root - best.slope) + root) + now.slope)
    let cubic := best.step + ratio * gap
    let secant := best.slope / ((best.value - now.value) / gap + best.slope) / 2.0
    let quadratic := best.step + secant * gap
    let step :=
      if (cubic - best.step).abs < (quadratic - best.step).abs then cubic
      else cubic + (quadratic - cubic) / 2.0
    (step, true)
  else if direction < 0.0 then
    let (theta, scale, radicand) := cubicShape best now
    let root := scale * radicand.sqrt
    let root := if best.step < now.step then -root else root
    let ratio := ((root - now.slope) + theta) / (((root - now.slope) + root) + best.slope)
    let cubic := now.step - ratio * gap
    let quadratic := now.step - now.slope / (now.slope - best.slope) * gap
    (if (quadratic - now.step).abs < (cubic - now.step).abs then cubic else quadratic, true)
  else if now.slope.abs < best.slope.abs then
    let (theta, scale, radicand) := cubicShape best now
    let root := scale * (larger 0.0 radicand).sqrt
    let root := if best.step < now.step then -root else root
    let ratio := ((root - now.slope) + theta) / ((root + (best.slope - now.slope)) + root)
    let cubic :=
      if ratio < 0.0 && root != 0.0 then now.step - ratio * gap
      else if best.step < now.step then most else least
    let quadratic := now.step - now.slope / (now.slope - best.slope) * gap
    let cubicIsNear := (cubic - now.step).abs < (quadratic - now.step).abs
    if bracketed then
      let step := if cubicIsNear then cubic else quadratic
      let limit := now.step + 0.66 * (other.step - now.step)
      (if best.step < now.step then smaller limit step else larger limit step, true)
    else
      let cubicIsFar := (quadratic - now.step).abs < (cubic - now.step).abs
      (bounded least most (if cubicIsFar then cubic else quadratic), false)
  else if bracketed then
    let (theta, scale, radicand) := cubicShape now other
    let root := scale * radicand.sqrt
    let root := if other.step < now.step then -root else root
    let ratio := ((root - now.slope) + theta) / (((root - now.slope) + root) + other.slope)
    (now.step + ratio * (other.step - now.step), true)
  else (if best.step < now.step then most else least, false)

def replaceEnds (best other now : Node) : Node × Node :=
  if best.value < now.value then (best, now)
  else if now.slope * (best.slope / best.slope.abs) < 0.0 then (now, best)
  else (now, other)

/-- A node as seen from the line of sufficient decrease. -/
def Node.tilt (n : Node) (slope : Float) : Node :=
  ⟨n.step, n.value - n.step * slope, n.slope - slope⟩

def Node.untilt (n : Node) (slope : Float) : Node :=
  ⟨n.step, n.value + n.step * slope, n.slope + slope⟩

/-- Whether a trial ends the search: it is acceptable, or no better one can be told apart. -/
def State.accepts (s : State) (now : Node) : Bool :=
  let required := decrease * s.start.slope
  let target := s.start.value + now.step * required
  let low := now.value ≤ target
  (low && now.slope.abs ≤ flatness * -s.start.slope) ||
    (s.bracketed && (now.step ≤ s.least || s.most ≤ now.step)) ||
    (s.bracketed && s.most - s.least ≤ resolution * s.most) ||
    (now.step == longest && low && now.slope ≤ required) ||
    (now.step == 0.0 && (target < now.value || required ≤ now.slope))

def State.advance (s : State) (now : Node) : State × Float :=
  let required := decrease * s.start.slope
  let target := s.start.value + now.step * required
  let firstStage := s.firstStage && !(now.value ≤ target && 0.0 ≤ now.slope)
  let tilted := firstStage && now.value ≤ s.best.value && target < now.value
  let view := fun (n : Node) => if tilted then n.tilt required else n
  let unview := fun (n : Node) => if tilted then n.untilt required else n
  let (step, bracketed) :=
    nextStep (view s.best) (view s.other) (view now) s.bracketed s.least s.most
  let (best, other) := replaceEnds (view s.best) (view s.other) (view now)
  let (best, other) := (unview best, unview other)
  let span := (other.step - best.step).abs
  let step :=
    if bracketed && 0.66 * s.oldWidth ≤ span then
      best.step + 0.5 * (other.step - best.step)
    else step
  let (width, oldWidth) := if bracketed then (span, s.width) else (s.width, s.oldWidth)
  let (least, most) :=
    if bracketed then (smaller best.step other.step, larger best.step other.step)
    else (step + 1.1 * (step - best.step), step + 4.0 * (step - best.step))
  let step := bounded 0.0 longest step
  let stuck := bracketed &&
    (step ≤ least || most ≤ step || most - least ≤ resolution * most)
  ({ s with best, other, bracketed, firstStage, width, oldWidth, least, most },
    if stuck then best.step else step)

/-- Tries steps until one ends the search; none if all trials were used up. The number of trials
left is returned with the result. -/
def search (probe : Float → Except Fault Probe) :
    (budget : Nat) → State → Float → Except Fault (Nat × Option Probe)
  | 0, _, _ => .ok (0, none)
  | budget + 1, s, step => do
    let trial ← probe step
    if s.accepts trial.node then return (budget, some trial)
    let (s, step) := s.advance trial.node
    search probe budget s step

end Optima.LineSearch
