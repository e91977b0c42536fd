import Optima.Input.Tensor

/-!
Operations on vectors with operands as given: factors that may be no numbers, indices that may be no
positions, second operands that may be no vectors. Also how components are stored outside: as whole
numbers, in single precision, and as the bits that identify equal vectors.
-/

namespace Optima.Vec

/-- The factor of a product: a number, or a text that denotes one. -/
def factor (value : Datum) : Except Fault Float :=
  match value with
  | .null | .list _ | .record _ | .vector _ => .error .wrongKind
  | value => value.toFloat

/-- What selecting several components at once comes to, which is never a number: the places must
exist all the same. -/
def selection (v : Vec Float) (places : List Datum) : Fault :=
  let flags := places.filterMap fun | .flag b => some b | _ => none
  let indices := places.filterMap Datum.whole?
  if places.isEmpty then .wrongKind
  else if flags.length == places.length then
    if flags.length == v.size then .wrongKind else .outOfRange
  else if indices.length == places.length then
    match indices.find? fun i => (position? v.size i).isNone with
    | some i => indexFault i v.size
    | none => .wrongKind
  else .outOfRange

/-- The component at an index as given. Only whole numbers name a component. -/
def item (v : Vec Float) (index : Datum) : Except Fault Float :=
  match index with
  | .whole i => v.get i
  | .list places => .error (v.selection places)
  | .real _ | .text _ | .record _ | .vector (_ :: _) => .error .outOfRange
  | _ => .error .wrongKind

/-- An end or a step of a slice as given; nothing leaves it open. -/
def sliceBound : Datum → Except Fault (Option Int)
  | .null => .ok none
  | value => some <$> value.integer

/-- A slice with ends and step as given. The step is looked at first. -/
def sliceGiven (v : Vec Float) (start stop step : Datum) : Except Fault (Vec Float) := do
  let step ← sliceBound step
  if step == some 0 then throw .badValue
  let start ← sliceBound start
  v.slice start (← sliceBound stop) step

def filled (value : Float) (shape : Datum) : Except Fault (Vec Float) := do
  match ← Tensor.shapeGiven shape with
  | [] => return ⟨[value]⟩
  | [count] => return ⟨List.replicate count value⟩
  | shape => throw (.mismatch (.notFlat "vector values" shape))

/-- A unit vector with dimension and index as given. A flag as the index sets all components or
none. -/
def basisGiven (dimension index : Datum) : Except Fault (Vec Float) := do
  let outside := Fault.misuse (.basisIndex index dimension)
  if (← index.less (.whole 0)) then throw outside
  if index.quantity? == some .undefined then throw outside
  if !(← index.less dimension) then throw outside
  let zeros ← filled 0.0 dimension
  match index with
  | .whole i => return ⟨zeros.toList.set i.toNat 1.0⟩
  | .flag b => return if b then ⟨zeros.toList.map fun _ => 1.0⟩ else zeros
  | _ => throw .outOfRange

def withOperand (op : Pairing) (f : Vec Float → Vec Float → Except Fault (Vec Float))
    (v : Vec Float) (operand : Datum) : Except Fault (Vec Float) := do
  f v (← Vec.operand op operand)

/-- Subtracts a vector from an operand as given. A list that does not fit is reported after the
vector, a vector before it. -/
def subtractedFrom (v : Vec Float) (operand : Datum) : Except Fault (Vec Float) := do
  match operand with
  | .vector components => sub ⟨components⟩ v
  | _ => pairwise .subtract (fun x y => y - x) v (← Vec.operand .subtract operand)

def addedTo (v : Vec Float) (operand : Datum) : Except Fault (Vec Float) := do
  match operand with
  | .vector components => add ⟨components⟩ v
  | _ => add v (← Vec.operand .add operand)

def equals (v : Vec Float) : Datum → Bool
  | .vector components => same v ⟨components⟩
  | _ => false

/-- The bits of the components, the two zeros made one. Equal vectors have equal keys. -/
def key (v : Vec Float) : List UInt64 := v.toList.map fun x => (x + 0.0).toBits

def sameKey (v : Vec Float) : Datum → Except Fault Bool
  | .vector components => .ok (v.key == key ⟨components⟩)
  | .list _ | .record _ => .error .wrongKind
  | _ => .ok false

/-- The components cut to whole numbers of a machine word; what does not fit becomes the least
word. -/
def toWords (v : Vec Float) : List Int :=
  v.toList.map fun x =>
    match Decimal.Binary.ofFloat? x with
    | some b =>
      let magnitude : Int := (b.numerator / b.denominator : Nat)
      let n := if b.negative then -magnitude else magnitude
      if n < -0x8000000000000000 || 0x8000000000000000 ≤ n then -0x8000000000000000 else n
    | none => -0x8000000000000000

def toSingles (v : Vec Float) : Vec Float := ⟨v.toList.map fun x => x.toFloat32.toFloat⟩

end Optima.Vec
