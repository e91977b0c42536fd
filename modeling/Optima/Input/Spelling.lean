import Optima.Input.Tensor

/-!
How numbers and vectors are spelled in requests. Three texts name the numbers that have no digits,
and a record with the single field `v` is the vector of its value. Names and keys are not spelled
this way and are taken as they are.
-/

namespace Optima.Datum

def namedNumber? : String → Option Float
  | "nan" => some (0.0 / 0.0)
  | "inf" => some (1.0 / 0.0)
  | "-inf" => some (-1.0 / 0.0)
  | _ => none

mutual

/-- The value that is spelled. A record that should be a vector but is none is at fault. -/
def decoded : Datum → Except Fault Datum
  | text value =>
    match namedNumber? value with
    | some x => .ok (real x)
    | none => .ok (text value)
  | list items => do return list (← decodedAll items)
  | record [("v", value)] => do return vector (← Vec.ofDatum (← decoded value)).toList
  | value => .ok value

def decodedAll : List Datum → Except Fault (List Datum)
  | [] => .ok []
  | item :: rest => do
    let first ← decoded item
    return first :: (← decodedAll rest)

end

def decodedFields (fields : List (String × Datum)) : Except Fault (List (String × Datum)) :=
  fields.mapM fun (key, value) => do return (key, ← value.decoded)

end Optima.Datum
