import Optima.Fault
import Optima.Summation

/-!
Decision vectors. A vector is the list of its components; operations on two vectors ask for one
common dimension, and components are numbered from zero, or from minus one backwards.
-/

namespace Optima

structure Vec (α : Type) where
  toList : List α

namespace Vec

variable {α : Type}

def size (v : Vec α) : Nat := v.toList.length

theorem exists_of_size_one {v : Vec α} (h : v.size = 1) : ∃ x, v = ⟨[x]⟩ := by
  obtain ⟨x, hlist⟩ := List.length_eq_one_iff.mp h
  exact ⟨x, congrArg mk hlist⟩

def segment (v : Vec α) (start stop : Nat) : Vec α := ⟨(v.toList.take stop).drop start⟩

/-- The position that an end of a slice names, counted from the end if negative. -/
def sliceEnd (size : Nat) (index : Int) : Nat :=
  (if index < 0 then index + size else index).toNat

/-- The components between two ends of a slice. Ends outside of the vector are moved to it. -/
def between (v : Vec α) (start stop : Int) : Vec α :=
  v.segment (sliceEnd v.size start) (sliceEnd v.size stop)

@[simp] theorem sliceEnd_natCast (size i : Nat) : sliceEnd size i = i := by
  unfold sliceEnd
  split <;> omega

theorem between_natCast (v : Vec α) (start stop : Nat) :
    v.between start stop = v.segment start stop := by
  simp [between]

def position? (size : Nat) (index : Int) : Option Nat :=
  let shifted := if index < 0 then index + size else index
  if 0 ≤ shifted && shifted < size then some shifted.toNat else none

/-- What is wrong with an index that names no position. One that no machine word holds is not even
compared with the size. -/
def indexFault (index : Int) (size : Nat) : Fault :=
  if -0x8000000000000000 ≤ index && index < 0x8000000000000000 then .outOfBounds index size
  else if 0 ≤ index && index < 0x10000000000000000 then .tooLarge
  else .outOfRange

def get (v : Vec α) (index : Int) : Except Fault α :=
  match position? v.size index with
  | some i =>
    match v.toList[i]? with
    | some x => .ok x
    | none => .error (indexFault index v.size)
  | none => .error (indexFault index v.size)

/-- Counted from zero, an index names the component at its place. -/
theorem get_natCast_eq_ok {v : Vec α} {i : Nat} {x : α} :
    v.get i = .ok x ↔ v.toList[i]? = some x := by
  have hsign : ¬ (i : Int) < 0 := by omega
  unfold get position?
  simp only [hsign, if_false]
  by_cases hi : i < v.toList.length
  · simp [size, hi]
  · simp [size, hi]

def clamp (size : Nat) (least most : Int) (index : Int) : Int :=
  let shifted := if index < 0 then index + size else index
  if shifted < least then least else if most < shifted then most else shifted

def slicePositions (size : Nat) (start stop : Option Int) (step : Int) : List Nat :=
  let (least, most) := if 0 < step then (0, (size : Int)) else (-1, (size : Int) - 1)
  let first := match start with
    | some i => clamp size least most i
    | none => if 0 < step then 0 else (size : Int) - 1
  let last := match stop with
    | some i => clamp size least most i
    | none => if 0 < step then (size : Int) else -1
  let span : Int := if 0 < step then last - first else first - last
  let stride : Int := step.natAbs
  let count := (span + stride - 1) / stride
  (List.range count.toNat).map fun (k : Nat) => (first + k * step).toNat

/-- Every `step`-th component between two ends; negative steps walk backwards. -/
def slice (v : Vec α) (start stop step : Option Int) : Except Fault (Vec α) :=
  match step.getD 1 with
  | 0 => .error .badValue
  | step => .ok ⟨(slicePositions v.size start stop step).filterMap fun i => v.toList[i]?⟩

variable [Scalar α]

def ones (dimension : Nat) : Vec α := ⟨List.replicate dimension 1⟩

def basis (dimension index : Int) : Except Fault (Vec α) :=
  if 0 ≤ index && index < dimension then
    .ok ⟨(List.replicate dimension.toNat 0).set index.toNat 1⟩
  else .error (.misuse (.basisIndex (.whole index) (.whole dimension)))

@[inline] def pairwise (op : Pairing) (f : α → α → α) (v w : Vec α) : Except Fault (Vec α) :=
  if v.size == w.size then .ok ⟨List.zipWith f v.toList w.toList⟩
  else .error (.mismatch (.operandSize op v.size w.size))

def add (v w : Vec α) : Except Fault (Vec α) := pairwise .add (· + ·) v w

def sub (v w : Vec α) : Except Fault (Vec α) := pairwise .subtract (· - ·) v w

def hadamard (v w : Vec α) : Except Fault (Vec α) := pairwise .multiply (· * ·) v w

def neg (v : Vec α) : Vec α := ⟨v.toList.map fun x => -x⟩

def scale (v : Vec α) (s : α) : Vec α := ⟨v.toList.map (· * s)⟩

def divide (v : Vec α) (s : α) : Vec α := ⟨v.toList.map (· / s)⟩

def sum (v : Vec α) : α := Scalar.total v.toList

def mean (v : Vec α) : α := v.sum / Scalar.natural v.size

/-- Sum of the magnitudes of the components. -/
def gross (v : Vec α) : α := Scalar.total (v.toList.map Scalar.magnitude)

def norm (v : Vec α) : α := Scalar.squareRoot (Scalar.dot v.toList v.toList)

def dot (v w : Vec α) : Except Fault α :=
  if v.size == w.size then .ok (Scalar.dot v.toList w.toList)
  else .error (.mismatch (.operandSize .dot v.size w.size))

def distance (v w : Vec α) : Except Fault α := do
  let difference ← pairwise .distance (· - ·) v w
  return difference.norm

def max (v : Vec α) : Except Fault α :=
  match Scalar.greatest? v.toList with
  | some x => .ok x
  | none => .error .badValue

def min (v : Vec α) : Except Fault α :=
  match Scalar.least? v.toList with
  | some x => .ok x
  | none => .error .badValue

/-- Equality of dimension and of every component; the two zeros are one number. -/
def same (v w : Vec α) : Bool :=
  v.size == w.size && (List.zipWith Scalar.same v.toList w.toList).all id

def distinct (vs : List (Vec α)) : List (Vec α) :=
  (vs.foldl (fun kept v => if kept.any (same v) then kept else v :: kept) []).reverse

def isFinite (v : Vec α) : Bool := v.toList.all Scalar.isFinite

end Vec

end Optima
