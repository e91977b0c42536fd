import Optima.Datum.Number

/-!
Equality and order of values of any kind. Numbers are equal when they are the same number, whatever
their kind, and a flag is a number. Numbers, texts and lists have an order among themselves; nothing
else can be compared.
-/

namespace Optima.Datum

mutual

def same : Datum → Datum → Bool
  | null, null => true
  | text a, text b => a == b
  | list xs, list ys => sameItems xs ys
  | record fields, record others =>
    fields.length == others.length && sameFields others fields
  | vector xs, vector ys => xs == ys
  | a, b =>
    match a.quantity?, b.quantity? with
    | some p, some q => p.same q
    | _, _ => false

def sameItems : List Datum → List Datum → Bool
  | [], [] => true
  | x :: xs, y :: ys => same x y && sameItems xs ys
  | _, _ => false

def sameFields (others : List (String × Datum)) : List (String × Datum) → Bool
  | [] => true
  | (key, value) :: rest =>
    (match field? others key with
      | some other => same value other
      | none => false) && sameFields others rest

end

mutual

def less : Datum → Datum → Except Fault Bool
  | text a, text b => .ok (a < b)
  | list xs, list ys => lessItems xs ys
  | a, b =>
    match a.quantity?, b.quantity? with
    | some p, some q => .ok (p.less q)
    | _, _ => .error .wrongKind

/-- Lists are compared at the first place where they differ; what ends there is less. -/
def lessItems : List Datum → List Datum → Except Fault Bool
  | [], [] => .ok false
  | [], _ :: _ => .ok true
  | _ :: _, [] => .ok false
  | x :: xs, y :: ys => if same x y then lessItems xs ys else less x y

end

/-- The first of several candidates that no other one is preferred to. -/
def pickFrom {β : Type} (preferred : β → β → Except Fault Bool) (current : β) :
    List β → Except Fault β
  | [] => .ok current
  | item :: rest => do
    if ← preferred item current then pickFrom preferred item rest
    else pickFrom preferred current rest

/-- The largest of several values, the first of equal ones. -/
def largest (first : Datum) (rest : List Datum) : Except Fault Datum :=
  pickFrom (fun item current => current.less item) first rest

def insertSorted (value : Datum) : List Datum → Except Fault (List Datum)
  | [] => .ok [value]
  | item :: rest => do
    if ← value.less item then return value :: item :: rest
    return item :: (← insertSorted value rest)

def sorted : List Datum → Except Fault (List Datum)
  | [] => .ok []
  | item :: rest => do insertSorted item (← sorted rest)

/-- What identifies a value that things can be stored under. -/
inductive Key where
  | nothing
  | number (value : Quantity)
  | text (value : String)
deriving DecidableEq

/-- Lists, records and vectors are no keys. -/
def key? : Datum → Option Key
  | null => some .nothing
  | text value => some (.text value)
  | value => value.quantity?.map .number

def key (value : Datum) : Except Fault Key :=
  match value.key? with
  | some k => .ok k
  | none => .error .wrongKind

end Optima.Datum
