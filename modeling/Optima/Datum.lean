import Optima.Decimal.Reading
import Optima.Decimal.Writing
import Optima.Text.Quoted

/-!
Values as callers hand them over, before anything is checked: numbers of either kind, flags, texts,
lists, records and finished vectors. A refused value is reported as it was given, so whole numbers
and reals stay apart and each kind has a name.
-/

namespace Optima

inductive Datum where
  | null
  | flag (value : Bool)
  | whole (value : Int)
  | real (value : Float)
  | text (value : String)
  | list (items : List Datum)
  | record (fields : List (String × Datum))
  | vector (components : List Float)
deriving Inhabited

namespace Datum

def kindName : Datum → String
  | null => "NoneType"
  | flag _ => "bool"
  | whole _ => "int"
  | real _ => "float"
  | text _ => "str"
  | list _ => "list"
  | record _ => "dict"
  | vector _ => "Vector"

/-- A vector as it is shown: six significant digits per component. -/
def vectorText (components : List Float) : String :=
  "Vector(" ++ Text.bracketed (components.map (Decimal.general 6)) ++ ")"

mutual

/-- A value inside a list: texts stand between quotes. -/
def literal : Datum → String
  | null => "None"
  | flag value => if value then "True" else "False"
  | whole value => toString value
  | real value => Decimal.shortest value
  | text value => Text.quoted value
  | list items => Text.bracketed (literals items)
  | record fields => "\x7b" ++ ", ".intercalate (entryLiterals fields) ++ "\x7d"
  | vector components => vectorText components

def literals : List Datum → List String
  | [] => []
  | item :: rest => literal item :: literals rest

def entryLiterals : List (String × Datum) → List String
  | [] => []
  | (key, value) :: rest => (Text.quoted key ++ ": " ++ literal value) :: entryLiterals rest

end

/-- A value as it is reported: a text stands for itself. -/
def shown : Datum → String
  | text value => value
  | value => literal value

/-- Whether a value counts as present: nothing, zero and whatever is empty do not. -/
def isPresent : Datum → Bool
  | null => false
  | flag value => value
  | whole value => value != 0
  | real value => value != 0.0
  | text value => value != ""
  | list items => !items.isEmpty
  | record fields => !fields.isEmpty
  | vector components => !components.isEmpty

def field? (fields : List (String × Datum)) (key : String) : Option Datum :=
  (fields.find? fun entry => entry.1 == key).map (·.2)

end Datum

end Optima
