import Optima.Datum.Order
import Optima.Vec

/-!
Rectangular arrays of doubles read from nested lists. The lists of one level must have one shape;
the entries are then read in order, nothing at all counting as undefined. Arrays of different shapes
are brought to a common one by repeating what has extent one. Also shapes as given, and the vectors
that arrays are.
-/

namespace Optima

def Datum.entry : Datum → Except Fault Float
  | null => .ok (0.0 / 0.0)
  | value => value.toFloat

structure Tensor where
  shape : List Nat
  entries : List Float

namespace Tensor

def maxRank : Nat := 64

mutual

def nesting : Datum → Except Fault (List Nat)
  | .list items => nestingOf items
  | .vector components => .ok [components.length]
  | _ => .ok []

def nestingOf : List Datum → Except Fault (List Nat)
  | [] => .ok [0]
  | [item] => do return 1 :: (← nesting item)
  | item :: rest => do
    let first ← nesting item
    match ← nestingOf rest with
    | count :: inner => if first == inner then .ok ((count + 1) :: inner) else .error .badValue
    | [] => .error .badValue

end

def shapeOf (values : Datum) : Except Fault (List Nat) := do
  let shape ← nesting values
  if maxRank < shape.length then throw .badValue else return shape

mutual

def entriesOf : Datum → Except Fault (List Float)
  | .list items => itemEntries items
  | .vector components => .ok components
  | value => do return [← value.entry]

def itemEntries : List Datum → Except Fault (List Float)
  | [] => .ok []
  | item :: rest => do
    let first ← entriesOf item
    return first ++ (← itemEntries rest)

end

def ofDatum (values : Datum) : Except Fault Tensor := do
  let shape ← shapeOf values
  return ⟨shape, ← entriesOf values⟩

def rows (columns : Nat) : (count : Nat) → List Float → List (List Float)
  | 0, _ => []
  | count + 1, entries => entries.take columns :: rows columns count (entries.drop columns)

def sizeOf (shape : List Nat) : Nat := shape.foldl (· * ·) 1

/-- The common extents of two shapes, both from the last level outwards. -/
def commonExtents : List Nat → List Nat → Except Fault (List Nat)
  | [], ys => .ok ys
  | xs, [] => .ok xs
  | x :: xs, y :: ys => do
    let rest ← commonExtents xs ys
    if x == y || y == 1 then return x :: rest
    else if x == 1 then return y :: rest
    else throw .badValue

def commonShape (s t : List Nat) : Except Fault (List Nat) := do
  return (← commonExtents s.reverse t.reverse).reverse

/-- The entries of an array brought to a shape that is common to it and another one. -/
def spread : (target shape : List Nat) → List Float → List Float
  | [], _, entries => entries
  | count :: rest, shape, entries =>
    match shape with
    | extent :: inner =>
      if inner.length < rest.length then
        (List.replicate count (spread rest (extent :: inner) entries)).flatten
      else if extent == count then
        ((rows (sizeOf inner) count entries).map (spread rest inner)).flatten
      else (List.replicate count (spread rest inner entries)).flatten
    | [] => (List.replicate count (spread rest [] entries)).flatten

/-- The extent that a value stands for. A flag stands for none. -/
def extentOf : Datum → Except Fault Int
  | .whole n =>
    if n < -0x8000000000000000 || 0x8000000000000000 ≤ n then .error .badValue else .ok n
  | _ => .error .wrongKind

/-- The most entries that an array can be described with. -/
def describable : Nat := 0x1000000000000000

/-- The most members of a list, and entries of an array, that fit into memory. -/
def memoryLimit : Nat := 0x200000000

/-- The shape with given extents, none of them negative. Its entries must fit into memory; extents
that are not zero must not even multiply to what cannot be described. -/
def shapeWith (extents : List Int) : Except Fault (List Nat) :=
  if extents.any (· < 0) then .error .badValue
  else
    let shape := extents.map Int.toNat
    if describable ≤ sizeOf (shape.filter (· != 0)) then .error .badValue
    else if memoryLimit ≤ sizeOf shape then .error .arrayTooLarge
    else .ok shape

/-- The shape that a value stands for: one extent, or a list of them. -/
def shapeGiven : Datum → Except Fault (List Nat)
  | .list items => do
    if maxRank < items.length then throw .badValue
    shapeWith (← items.mapM extentOf)
  | .text "" => .ok []
  | .vector [] => .ok []
  | value => do shapeWith [← extentOf value]

end Tensor

/-- The vector that an array with one level is. A single number is one too. -/
def Vec.ofTensor (t : Tensor) : Except Fault (Vec Float) :=
  match t.shape with
  | [] | [_] => .ok ⟨t.entries⟩
  | shape => .error (.mismatch (.notFlat "vector values" shape))

def Vec.ofDatum (values : Datum) : Except Fault (Vec Float) := do
  match values with
  | .vector components => return ⟨components⟩
  | _ => Vec.ofTensor (← Tensor.ofDatum values)

def Vec.operand (op : Pairing) (values : Datum) : Except Fault (Vec Float) := do
  match values with
  | .vector components => return ⟨components⟩
  | _ =>
    let t ← Tensor.ofDatum values
    match t.shape with
    | [_] => return ⟨t.entries⟩
    | shape => throw (.mismatch (.operandShape op shape))

end Optima
