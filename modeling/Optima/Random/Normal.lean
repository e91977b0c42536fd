import Optima.Random.Source
import Optima.Random.Stream

/-!
Numbers with the standard normal distribution, by rejection from 256 layers of equal area under the
density. Most draws fall into the part of a layer that lies under the density as a whole and need
one word; the others are compared with the density, or come from the tail.
-/

namespace Optima.Random

def bell (x : Float) : Float := Float.exp (-0.5 * x * x)

namespace Layer

def tail : Float := 3.6541528853610088

def area : Float := 0.004928673233974658

def scale : Float := 4503599627370496.0

def endsAbove : (count : Nat) → Float → List Float
  | 0, x => [x]
  | count + 1, x =>
    let next := Float.sqrt (-2.0 * Float.log (area / x + bell x))
    endsAbove count next ++ [x]

/-- The right ends of the layers, from the top down to the tail. The first place is not used. -/
def ends : Array Float := (0.0 :: endsAbove 254 tail).toArray

def rightEnd (i : Nat) : Float := ends.getD i 0.0

/-- The width of a layer; the lowest one is as wide as its area asks for. -/
def width (i : Nat) : Float := if i == 0 then area / bell tail else rightEnd i

def units : Array Float := ((List.range 256).map fun i => width i / scale).toArray

/-- Words below this bound lie under the density for certain. -/
def bound (i : Nat) : UInt64 :=
  if i == 0 then (tail * bell tail / area * scale).toUInt64
  else if i == 1 then 0
  else (rightEnd (i - 1) / rightEnd i * scale).toUInt64

def bounds : Array UInt64 := ((List.range 256).map bound).toArray

def heights : Array Float :=
  ((List.range 256).map fun i => if i == 0 then 1.0 else bell (rightEnd i)).toArray

end Layer

namespace Stream

/-- A number from the tail, by rejection from an exponential one. Draws are limited. -/
def beyond (negative : Bool) : (attempts : Nat) → Stream → Float × Stream
  | 0, s => (Layer.tail, s)
  | attempts + 1, s =>
    let (u, s) := s.unit
    let (v, s) := s.unit
    let x := -(Float.log (1.0 - u)) / Layer.tail
    let y := -(Float.log (1.0 - v))
    if x * x < y + y then (if negative then -(Layer.tail + x) else Layer.tail + x, s)
    else beyond negative attempts s

/-- A number with the standard normal distribution. Draws are limited. -/
def layered : (attempts : Nat) → Stream → Float × Stream
  | 0, s => (0.0, s)
  | attempts + 1, s =>
    let (w, s) := s.word
    let i := (w &&& 255).toNat
    let r := w >>> 8
    let a := (r >>> 1) &&& 0xfffffffffffff
    let size := a.toFloat * Layer.units.getD i 0.0
    let x := if r &&& 1 == 1 then -size else size
    if a < Layer.bounds.getD i 0 then (x, s)
    else if i == 0 then beyond ((a >>> 8) &&& 1 == 1) 256 s
    else
      let (u, s) := s.unit
      let low := Layer.heights.getD i 0.0
      if (Layer.heights.getD (i - 1) 0.0 - low) * u + low < bell x then (x, s)
      else layered attempts s

def normal (s : Stream) : Float × Stream := layered 256 s

end Stream

def source : Source Stream Float where
  unit := Stream.unit
  normal := Stream.normal
  position := Stream.position

end Optima.Random
