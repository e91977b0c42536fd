import Optima.Input.ScenarioSpec
import Optima.Input.Seed
import Optima.Input.Spelling
import Optima.Random.Normal

/-!
Generators of scenarios: rows that are drawn in turn, or arrays of numbers drawn from a stream. The
arguments of a draw are arrays that are brought to a common shape, which must be the size that is
asked for. A draw is used as a list of values, as named values, or as a scenario.
-/

namespace Optima

/-- Equally likely scenarios from as many draws as asked for. A count that is too large for a double
has no reciprocal, which is found out after the first draw. -/
def Scenario.generate {σ : Type} (draw : Nat → Draw σ (Draft Float)) (count : Nat) :
    Draw σ (List (Scenario Float)) := do
  if !Scalar.isFinite (Scalar.natural count : Float) then
    let _ ← draw 0
    throw .tooLarge
  return ofDrafts (← Draw.each draw (List.range count))

inductive Generator.Form where
  | values
  | mapping
  | scenario

inductive Generator.Method where
  | uniform
  | normal
  | unit
  | standardNormal
  | integers
  /-- Something that no stream can draw. -/
  | unknown

inductive Generator where
  /-- Nothing at all. -/
  | nothing
  /-- Rows in turn, over and over. -/
  | cycle (rows : List Datum) (form : Generator.Form)
  /-- Numbers from a stream. -/
  | stream (method : Generator.Method) (arguments : List Datum) (form : Generator.Form)

namespace Generator

def draft (form : Form) (values : List Float) : Draft Float :=
  let named := numberedParameters "k" values
  match form with
  | .values => .values values
  | .mapping => .mapping named
  | .scenario => .scenario { name := .ofText "draw", probability := 1.0, parameters := named }

/-- The values of an array; a row of numbers is no value. -/
def flatValues (t : Tensor) : Except Fault (List Float) :=
  match t.shape with
  | [] | [_] | 0 :: _ => .ok t.entries
  | _ => .error .wrongKind

def rowDraft (form : Form) (row : Datum) : Except Fault (Draft Float) := do
  match row, form with
  | .record fields, _ =>
    return .mapping (← fields.mapM fun (key, value) => do return (key, ← value.toFloat))
  | row, .values => return draft form (← flatValues (← Tensor.ofDatum row))
  | .list items, form => return draft form (← items.mapM Datum.toFloat)
  | .vector components, form => return draft form components
  | single, form => return draft form [← single.toFloat]

def argument (arguments : List Datum) (i : Nat) (fallback : Datum) : Datum :=
  arguments.getD i fallback

/-- Two arguments of a draw as arrays. Two single ones must be numbers. -/
def operands (first second : Datum) : Except Fault (Tensor × Tensor) := do
  let s ← Tensor.ofDatum first
  let t ← Tensor.ofDatum second
  if s.shape.isEmpty && t.shape.isEmpty then
    let _ ← first.number
    let _ ← second.number
  return (s, t)

/-- The shape of a draw: the common one of its arguments, which must fit into the size that is asked
for. -/
def shapeFor (size : Datum) (shape : List Nat) : Except Fault (List Nat) := do
  match size with
  | .null => return shape
  | size =>
    let wanted ← Tensor.shapeGiven size
    if (← Tensor.commonShape shape wanted) == wanted then return wanted else throw .badValue

/-- One draw for each place of a shape, from the entries that two arrays have there. -/
def drawPairs (shape : List Nat) (s t : Tensor) (draw : Float → Float → Draw Random.Stream Float) :
    Draw Random.Stream Tensor := do
  let pairs := (Tensor.spread shape s.shape s.entries).zip (Tensor.spread shape t.shape t.entries)
  return ⟨shape, ← Draw.each (fun pair => draw pair.1 pair.2) pairs⟩

/-- Numbers between two ends, whose distance must be finite and have no sign. -/
def uniformDraw (low high size : Datum) : Draw Random.Stream Tensor := do
  let (low, high) ← operands low high
  let shape ← Tensor.commonShape low.shape high.shape
  let widths := List.zipWith (· - ·) (Tensor.spread shape high.shape high.entries)
    (Tensor.spread shape low.shape low.entries)
  if !(widths.all Float.isFinite) then throw .tooLarge
  if Check.hasSign widths then throw .badValue
  drawPairs (← shapeFor size shape) low high fun low high => do
    return low + (high - low) * (← Draw.ofStep Random.Stream.unit)

/-- Numbers with a mean and a standard deviation, which must have no sign. -/
def normalDraw (mean deviation size : Datum) : Draw Random.Stream Tensor := do
  let (mean, deviation) ← operands mean deviation
  if Check.hasSign deviation.entries then throw .badValue
  let shape ← Tensor.commonShape mean.shape deviation.shape
  drawPairs (← shapeFor size shape) mean deviation fun mean deviation => do
    return mean + deviation * (← Draw.ofStep Random.Stream.normal)

def repeated (draw : Draw Random.Stream Float) (size : Datum) : Draw Random.Stream Tensor := do
  let shape ← shapeFor size []
  return ⟨shape, ← Draw.many draw (Tensor.sizeOf shape)⟩

def wholePart : Datum → Except Fault Int
  | .real x =>
    match Decimal.Binary.ofFloat? x with
    | some b =>
      let magnitude : Int := (b.numerator / b.denominator : Nat)
      .ok (if b.negative then -magnitude else magnitude)
    | none => .error (if x.isNaN then .badValue else .tooLarge)
  | .text value =>
    match Decimal.readInt? value with
    | some n => .ok n
    | none => .error .badValue
  | value => value.integer

/-- A whole number from a least one up to, and without, an end. All of them must fit into a machine
word. -/
def integerDraw (least stop : Int) : Draw Random.Stream Float := do
  if least < -0x8000000000000000 || 0x8000000000000000 < stop || stop ≤ least then throw .badValue
  let offset ← Draw.ofStep (Random.Stream.upTo (stop - 1 - least).toNat)
  Datum.wholeToFloat (least + offset)

/-- Whole numbers from a least one up to, and without, an end. Where nothing is drawn, nothing is
looked at. -/
def integersDraw (low high size : Datum) : Draw Random.Stream Tensor := do
  if let .ok shape := Tensor.shapeGiven size then
    if Tensor.sizeOf shape == 0 then return ⟨shape, []⟩
  let lowShape ← Tensor.shapeOf low
  let highShape ← Tensor.shapeOf high
  if lowShape.isEmpty && highShape.isEmpty then
    let least ← wholePart low
    let stop ← wholePart high
    if least < -0x8000000000000000 || 0x8000000000000000 < stop || stop ≤ least then throw .badValue
    repeated (integerDraw least stop) size
  else
    let s ← Tensor.ofDatum low
    let t ← Tensor.ofDatum high
    let shape ← Tensor.commonShape s.shape t.shape
    drawPairs (← shapeFor size shape) s t fun low high => do
      integerDraw (← wholePart (.real low)) (← wholePart (.real high))

def numbers (method : Method) (arguments : List Datum) : Draw Random.Stream Tensor := do
  match method, arguments with
  | .unknown, _ => throw .noSuchMember
  | _, _ :: _ :: _ :: _ :: _ => throw .wrongKind
  | .uniform, _ =>
    uniformDraw (argument arguments 0 (.real 0.0)) (argument arguments 1 (.real 1.0))
      (argument arguments 2 .null)
  | .normal, _ =>
    normalDraw (argument arguments 0 (.real 0.0)) (argument arguments 1 (.real 1.0))
      (argument arguments 2 .null)
  | .unit, _ => repeated (Draw.ofStep Random.Stream.unit) (arguments.headD .null)
  | .standardNormal, _ => repeated (Draw.ofStep Random.Stream.normal) (arguments.headD .null)
  | .integers, [] => throw .wrongKind
  | .integers, [high] => integersDraw (.whole 0) high .null
  | .integers, high :: .null :: rest => integersDraw (.whole 0) high (rest.headD .null)
  | .integers, low :: high :: rest => integersDraw low high (rest.headD .null)

def draw (g : Generator) (i : Nat) : Draw Random.Stream (Draft Float) := do
  match g with
  | nothing => return .mapping []
  | cycle rows form =>
    match rows[i % rows.length]? with
    | some row => rowDraft form row
    | none => throw .divisionByZero
  | stream method arguments form => return draft form (← flatValues (← numbers method arguments))

def scenarios [Random.Environment] (g : Generator) (count : Nat) (seed : Datum) :
    Except Fault (List (Scenario Float)) := do
  let stream ← Random.Stream.ofDatum seed
  let (scenarios, _) ← Scenario.generate g.draw count stream
  return scenarios

def formOf : Datum → Form
  | .text "mapping" => .mapping
  | .text "scenario" => .scenario
  | _ => .values

def methodOf : Datum → Method
  | .text "uniform" => .uniform
  | .text "normal" => .normal
  | .text "random" => .unit
  | .text "standard_normal" => .standardNormal
  | .text "integers" => .integers
  | _ => .unknown

/-- The generator that a value describes. One that can do without a stream draws the same value
every time. -/
def ofDatum : Datum → Except Fault Generator
  | .text "dict" => .ok .nothing
  | .record fields => do
    let form := formOf ((Datum.field? fields "form").getD .null)
    match Datum.field? fields "cycle", Datum.field? fields "optional",
        Datum.field? fields "rng" with
    | some rows, _, _ => return cycle (← (← rows.decoded).members) form
    | none, some value, _ => return cycle [← value.decoded] form
    | none, none, some method =>
      let arguments ← ((Datum.field? fields "args").getD (.list [])).decoded
      return stream (methodOf method) (← arguments.members) form
    | none, none, none => throw .wrongKind
  | _ => .error .wrongKind

end Generator

end Optima
