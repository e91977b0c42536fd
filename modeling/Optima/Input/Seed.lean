import Optima.Datum.Number
import Optima.Random.Environment

/-!
Seeds as given: a number that is not negative, or a list of seeds. Inside a list a number may also
be written as a text, with decimal digits or with hexadecimal ones behind `0x`.
-/

namespace Optima.Random

def numberWords (n : Int) : Except Fault (List UInt32) :=
  if n < 0 then .error .badValue else .ok (wordsOf n.toNat)

/-- The words of a number that is written as a text. A decimal one starts with a digit. -/
def textWords (value : String) : Except Fault (List UInt32) :=
  let number? : Option Int :=
    if value.startsWith "0x" then (Decimal.readHex? value).map Int.ofNat
    else if (value.toList.headD ' ').isDigit then Decimal.readInt? value
    else none
  match number? with
  | some n => numberWords n
  | none => .error .badValue

mutual

def itemWords : Datum → Except Fault (List UInt32)
  | .text value => textWords value
  | .list items => listWords items
  | .vector components => if components.isEmpty then .ok [] else .error .wrongKind
  | .record fields => do return (← fields.mapM fun entry => textWords entry.1).flatten
  | value => do numberWords (← value.integer)

def listWords : List Datum → Except Fault (List UInt32)
  | [] => .ok []
  | item :: rest => do
    let first ← itemWords item
    return first ++ (← listWords rest)

end

def seedWords : Datum → Except Fault (List UInt32)
  | .list items => listWords items
  | value => do numberWords (← value.integer)

/-- The stream of a seed, or the one that the environment has without a seed. -/
def Stream.ofDatum [Environment] : Datum → Except Fault Stream
  | .null => .ok Environment.unseeded
  | seed => do return ofSeed (← seedWords seed)

end Optima.Random
