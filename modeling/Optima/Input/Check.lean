import Optima.Input.Tensor

/-!
Checked inputs. Each check turns a value as given into the value that the library works with, or
says what is wrong with it and under which name it was given.
-/

namespace Optima.Check

/-- A finite flat array, not empty unless allowed, of a given dimension if there is one to compare
with. -/
def flatArray (values : Datum) (name : String) (dimension : Datum) (allowEmpty : Bool) :
    Except Fault (Vec Float) := do
  let t ← Tensor.ofDatum values
  if 1 < t.shape.length then throw (.mismatch (.notFlat name t.shape))
  let size := t.entries.length
  if !allowEmpty && size == 0 then throw (.misuse (.empty name))
  match dimension with
  | .null => pure ()
  | d => if !d.same (.whole size) then throw (.mismatch (.wrongSize name size d))
  if !t.entries.all Float.isFinite then throw (.misuse (.notFinite name))
  return ⟨t.entries⟩

def array (values : Datum) (name : String) : Except Fault (Vec Float) :=
  flatArray values name .null false

def arrayOf (dimension : Nat) (values : Datum) (name : String) : Except Fault (Vec Float) :=
  flatArray values name (.whole dimension) false

/-- A finite matrix, of a given shape if there is one to compare with, as the list of its rows. -/
def matrix (values : Datum) (name : String) (shape : Option (List Datum)) :
    Except Fault (List (List Float)) := do
  let t ← Tensor.ofDatum values
  match t.shape with
  | [count, columns] =>
    if let some expected := shape then
      if !Datum.sameItems expected [.whole count, .whole columns] then
        throw (.mismatch (.wrongShape name expected t.shape))
    if !t.entries.all Float.isFinite then throw (.misuse (.notFinite name))
    return Tensor.rows columns count t.entries
  | other => throw (.mismatch (.notMatrix name other))

def squareMatrix (dimension : Nat) (values : Datum) (name : String) :
    Except Fault (List (List Float)) :=
  matrix values name (some [.whole dimension, .whole dimension])

/-- Whether a whole number fits into a machine word, with or without a sign. -/
def fitsWord (n : Int) : Bool := -0x8000000000000000 ≤ n && n < 0x10000000000000000

mutual

/-- Whether a value can be tested for finiteness: it holds nothing but numbers of the machine. -/
def isMeasurable : Datum → Bool
  | .flag _ | .real _ | .vector _ => true
  | .whole n => fitsWord n
  | .list items => areMeasurable items
  | _ => false

def areMeasurable : List Datum → Bool
  | [] => true
  | item :: rest => isMeasurable item && areMeasurable rest

end

/-- What becomes of a list where a number is expected. It passes the test for finiteness as its only
member would, and is then no number to compare. -/
def listedNumber (items : List Datum) (refuse : Fault) : Except Fault Fault := do
  let _ ← Tensor.shapeOf (.list items)
  if !areMeasurable items then return .wrongKind
  match ← Tensor.itemEntries items with
  | [x] => return if x.isFinite then .wrongKind else refuse
  | _ => return .badValue

/-- A single number that can be tested for finiteness; whole numbers end where machine words do. -/
def finiteNumber (value : Datum) (refuse : Fault) : Except Fault Float := do
  match value with
  | .whole n => if fitsWord n then value.number else throw .wrongKind
  | .real x => if x.isFinite then return x else throw refuse
  | .list items => throw (← listedNumber items refuse)
  | _ => value.number

def positive (value : Datum) (name : String) : Except Fault Float := do
  let refuse := Fault.misuse (.notPositive name value)
  let x ← finiteNumber value refuse
  if x ≤ 0.0 then throw refuse else return x

def nonNegative (value : Datum) (name : String) : Except Fault Float := do
  let refuse := Fault.misuse (.negative name value)
  let x ← finiteNumber value refuse
  if x < 0.0 then throw refuse else return x

/-- Whether a list holds a number with a sign, be it that of a zero. The undefined number has none.
-/
def hasSign (xs : List Float) : Bool := xs.any fun x => !x.isNaN && x.toBits >>> 63 == 1

def wholeOf? (x : Float) : Option Int := do
  let b ← Decimal.Binary.ofFloat? x
  guard (b.numerator % b.denominator == 0)
  let n : Int := (b.numerator / b.denominator : Nat)
  return if b.negative then -n else n

/-- A positive whole number; a real that equals one is accepted, a flag is not. -/
def count (value : Datum) (name : String) : Except Fault Nat := do
  let refuse := Fault.misuse (.notCount name value)
  match value with
  | .flag _ => throw refuse
  | .whole n => if n ≤ 0 then throw refuse else return n.toNat
  | .real x =>
    if x.isNaN then throw .badValue
    if x.isInf then throw .tooLarge
    match wholeOf? x with
    | some n => if n ≤ 0 then throw refuse else return n.toNat
    | none => throw refuse
  | .text s => throw (if (Decimal.readInt? s).isSome then refuse else .badValue)
  | _ => throw .wrongKind

/-- Arguments by name: those that stand without a name come first, in the order of the names, and
none may be given twice. -/
def named (names : List String) (arguments : List Datum) (fields : List (String × Datum)) :
    Except Fault (List (String × Datum)) := do
  if names.length < arguments.length then throw .wrongKind
  let placed := names.zip arguments
  if fields.any fun entry => placed.any fun other => other.1 == entry.1 then throw .wrongKind
  return placed ++ fields

def demanded (fields : List (String × Datum)) (key : String) : Except Fault Datum :=
  match Datum.field? fields key with
  | some value => .ok value
  | none => .error .wrongKind

def arrayFrom (fields : List (String × Datum)) : Except Fault (Vec Float) := do
  let given (key : String) : Datum := (Datum.field? fields key).getD .null
  let values ← demanded fields "values"
  let name ← demanded fields "name"
  flatArray values name.shown (given "dim") (given "allow_empty").isPresent

def matrixFrom (fields : List (String × Datum)) : Except Fault (List (List Float)) := do
  let values ← demanded fields "values"
  let name ← demanded fields "name"
  let shape ← match Datum.field? fields "shape" with
    | none | some .null => pure none
    | some shape => some <$> shape.members
  matrix values name.shown shape

end Optima.Check
