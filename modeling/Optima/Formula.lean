import Optima.Input.Spelling
import Optima.Input.Vector

/-!
Formulas: objectives, residuals and metrics given as data. A formula reads the decision `x`, and
where there are any the next state `y`, uncertain parameters `p`, the period `t`, named scenario
parameters and the states of a trajectory. It is written as a list that starts with the name of its
operation; everything is computed in doubles, in the order written.
-/

namespace Optima

inductive Formula.Name where
  | x
  | y
  | p

inductive Formula.Reduction where
  | sum
  | mean
  | norm
  | max
  | min

inductive Formula.Unary where
  | neg
  | abs
  | sq
  | exp
  | log
  | sqrt

inductive Formula.Binary where
  | sub
  | div
  | max
  | min

/-- The other vector of an inner product or a distance: named, or given with the formula. -/
inductive Formula.Operand where
  | named (name : Formula.Name)
  | given (values : Except Fault (Vec Float))

inductive Formula where
  | constant (value : Float)
  /-- What cannot be computed. -/
  | refused (fault : Fault)
  | period
  | component (name : Formula.Name) (index : Datum)
  | parameter (key : Datum)
  /-- A scenario parameter with a default; a default that is no number cannot be computed with. -/
  | parameterOr (key : Datum) (fallback : Except Fault Float)
  | reduce (op : Formula.Reduction)
  | dot (operand : Formula.Operand)
  | distance (operand : Formula.Operand)
  | quadratic (rows : List (List Datum))
  /-- The formula of the current period. -/
  | pick (choices : List Formula)
  | atState (index : Int) (body : Formula)
  | sumStates (body : Formula)
  | stateCount
  | power (base : Formula) (exponent : Nat)
  | add (first : Formula) (rest : List Formula)
  | mul (first : Formula) (rest : List Formula)
  | unary (op : Formula.Unary) (a : Formula)
  | binary (op : Formula.Binary) (a b : Formula)
  | ifGreater (a b c d : Formula)

namespace Formula

structure Env where
  x : Vec Float := ⟨[]⟩
  y : Vec Float := ⟨[]⟩
  p : Vec Float := ⟨[]⟩
  period : Nat := 0
  parameters : List (String × Float) := []
  states : List (Vec Float) := []

def Env.vector (env : Env) : Name → Vec Float
  | .x => env.x
  | .y => env.y
  | .p => env.p

def Reduction.apply : Reduction → Vec Float → Except Fault Float
  | sum, v => .ok v.sum
  | mean, v => .ok v.mean
  | norm, v => .ok v.norm
  | max, v => v.max
  | min, v => v.min

def Unary.apply : Unary → Float → Float
  | neg, a => -a
  | abs, a => a.abs
  | sq, a => a * a
  | exp, a => a.exp
  | log, a => a.log
  | sqrt, a => a.sqrt

def Binary.apply : Binary → Float → Float → Float
  | sub, a, b => a - b
  | div, a, b => a / b
  | max, a, b => Scalar.larger a b
  | min, a, b => Scalar.smaller a b

def Operand.value (env : Env) : Operand → Except Fault (Vec Float)
  | named name => .ok (env.vector name)
  | given values => values

/-- The value stored under a key, if there is one. What cannot be a key is refused. -/
def lookup (parameters : List (String × Float)) (key : Datum) : Except Fault (Option Float) := do
  match ← key.key with
  | .text name => return (parameters.find? fun entry => entry.1 == name).map (·.2)
  | _ => return none

/-- Sum of `x_i * m_ij * x_j` over one row after the other. -/
def quadraticForm (x : Vec Float) (rows : List (List Datum)) : Except Fault Float :=
  rows.zipIdx.foldlM (fun total (row, i) =>
    row.zipIdx.foldlM (fun total (m, j) => do
      let left := (← x.get i) * (← m.number)
      return total + left * (← x.get j)) total) 0.0

mutual

def eval (env : Env) : Formula → Except Fault Float
  | constant value => .ok value
  | refused fault => .error fault
  | period => .ok (Float.ofNat env.period)
  | component name index => (env.vector name).item index
  | parameter key => do
    match ← lookup env.parameters key with
    | some value => return value
    | none => throw (.missingKey key)
  | parameterOr key fallback => do
    match ← lookup env.parameters key with
    | some value => return value
    | none => fallback
  | reduce op => op.apply env.x
  | dot operand => do env.x.dot (← operand.value env)
  | distance operand => do env.x.distance (← operand.value env)
  | quadratic rows => quadraticForm env.x rows
  | pick choices => evalNth env choices env.period
  | atState index body =>
    match Vec.position? env.states.length index with
    | some i =>
      match env.states[i]? with
      | some state => eval { env with x := state } body
      | none => .error .outOfRange
    | none => .error .outOfRange
  | sumStates body =>
    env.states.foldlM (fun total state => do
      return total + (← eval { env with x := state } body)) 0.0
  | stateCount => .ok (Float.ofNat env.states.length)
  | power base exponent => do
    let a ← eval env base
    return (List.range exponent).foldl (fun product _ => product * a) 1.0
  | add first rest => do evalSum env (← eval env first) rest
  | mul first rest => do evalProduct env (← eval env first) rest
  | unary op a => do return op.apply (← eval env a)
  | binary op a b => do
    let a ← eval env a
    return op.apply a (← eval env b)
  | ifGreater a b c d => do
    let a ← eval env a
    let b ← eval env b
    let c ← eval env c
    let d ← eval env d
    return if b < a then c else d

def evalNth (env : Env) : List Formula → Nat → Except Fault Float
  | [], _ => .error .outOfRange
  | f :: _, 0 => eval env f
  | _ :: rest, n + 1 => evalNth env rest n

def evalSum (env : Env) (total : Float) : List Formula → Except Fault Float
  | [] => .ok total
  | f :: rest => do evalSum env (total + (← eval env f)) rest

def evalProduct (env : Env) (product : Float) : List Formula → Except Fault Float
  | [] => .ok product
  | f :: rest => do evalProduct env (product * (← eval env f)) rest

end

def readName? : String → Option Name
  | "x" => some .x
  | "y" => some .y
  | "p" => some .p
  | _ => none

def readUnary? : String → Option Unary
  | "neg" => some .neg
  | "abs" => some .abs
  | "sq" => some .sq
  | "exp" => some .exp
  | "log" => some .log
  | "sqrt" => some .sqrt
  | _ => none

def readBinary? : String → Option Binary
  | "-" => some .sub
  | "/" => some .div
  | "max" => some .max
  | "min" => some .min
  | _ => none

def readReduction? : String → Option Reduction
  | "sum" => some .sum
  | "mean" => some .mean
  | "norm" => some .norm
  | "vmax" => some .max
  | "vmin" => some .min
  | _ => none

def readOperand (op : Pairing) (operand : Datum) : Operand :=
  let given (values : Datum) : Operand := .given (do Vec.operand op (← values.decoded))
  match operand with
  | .text name =>
    match readName? name with
    | some name => .named name
    | none => given operand
  | _ => given operand

/-- The entries of the rows of a matrix. Rows are lists; anything else has no entries. -/
def readRows (rows : Datum) : Except Fault (List (List Datum)) := do
  (← (← rows.decoded).members).mapM Datum.members

def readNumber (value : Datum) : Except Fault Float := do (← value.decoded).number

def ofResult : Except Fault Formula → Formula
  | .ok f => f
  | .error fault => refused fault

def assemble (op : String) (args : List Datum) (parts : List Formula) : Formula :=
  match op, args, parts with
  | "s", [key], _ => .parameter key
  | "sget", [key, fallback], _ => .parameterOr key (readNumber fallback)
  | "sget", [key], _ => .parameterOr key (.error .wrongKind)
  | "dot", [operand], _ => .dot (readOperand .dot operand)
  | "distance", [operand], _ => .distance (readOperand .distance operand)
  | "quad", [rows], _ => ofResult (quadratic <$> readRows rows)
  | "pick", _, choices => .pick choices
  | "st", [k, _], [_, body] => ofResult ((atState · body) <$> k.integer)
  | "sumst", _, [body] => .sumStates body
  | "nst", [], _ => .stateCount
  | "pow", [_, k], [base, _] => ofResult ((power base ·.toNat) <$> k.integer)
  | "+", _, first :: rest => .add first rest
  | "*", _, first :: rest => .mul first rest
  | "if_gt", _, [a, b, c, d] => .ifGreater a b c d
  | op, [index], [part] =>
    match readName? op, readUnary? op with
    | some name, _ => .component name index
    | none, some f => .unary f part
    | none, none => refused .wrongKind
  | op, _, [a, b] =>
    match readBinary? op with
    | some f => .binary f a b
    | none => refused .wrongKind
  | op, [], _ =>
    match readReduction? op with
    | some f => .reduce f
    | none => refused .wrongKind
  | _, _, _ => refused .wrongKind

mutual

/-- The formula that a value denotes. A value that denotes none is one that cannot be computed. -/
def ofDatum : Datum → Formula
  | .text "t" => .period
  | .list (.text op :: args) => assemble op args (ofItems args)
  | value => ofResult (constant <$> readNumber value)

def ofItems : List Datum → List Formula
  | [] => []
  | item :: rest => ofDatum item :: ofItems rest

end

mutual

/-- The formula when the decision and the period are handed over in each other's place: a number has
no components and a vector is no period. -/
def misplaced : Formula → Formula
  | component _ _ => refused .wrongKind
  | period => refused .wrongKind
  | reduce _ => refused .noSuchMember
  | dot _ => refused .noSuchMember
  | distance _ => refused .noSuchMember
  | quadratic _ => refused .wrongKind
  | pick _ => refused .wrongKind
  | power base exponent => power (misplaced base) exponent
  | add first rest => add (misplaced first) (misplacedAll rest)
  | mul first rest => mul (misplaced first) (misplacedAll rest)
  | unary op a => unary op (misplaced a)
  | binary op a b => binary op (misplaced a) (misplaced b)
  | ifGreater a b c d => ifGreater (misplaced a) (misplaced b) (misplaced c) (misplaced d)
  | other => other

def misplacedAll : List Formula → List Formula
  | [] => []
  | f :: rest => misplaced f :: misplacedAll rest

end

end Formula

end Optima
