import Optima.Formula
import Optima.Period.Plan

/-!
Objectives of a period described by a formula and by how they are called. A call that an objective
does not take is refused when it is made.
-/

namespace Optima.PeriodObjective

/-- A formula of the state; the period is zero. -/
def plain (f : Formula) : PeriodObjective Float where
  arguments := some 1
  ofState x := f.eval { x }
  ofPeriod _ _ := .error .wrongKind

def timed (f : Formula) : PeriodObjective Float where
  arguments := some 2
  ofState _ := .error .wrongKind
  ofPeriod t x := f.eval { x, period := t }

/-- A formula of the state that takes any arguments and sees the state only. -/
def variadic (f : Formula) : PeriodObjective Float where
  arguments := none
  ofState x := f.eval { x }
  ofPeriod _ x := f.eval { x }

/-- A formula of the state in which the period may be left out, and is five then. The state comes
first, so handing over the period first misplaces both. -/
def optional (f : Formula) : PeriodObjective Float where
  arguments := some 1
  ofState x := f.eval { x, period := 5 }
  ofPeriod _ _ := f.misplaced.eval {}

def excessive (arguments : Nat) : PeriodObjective Float where
  arguments := some arguments
  ofState _ := .error .wrongKind
  ofPeriod _ _ := .error .wrongKind

/-- A choice among the components of the state, the first of them if none is preferred. -/
def choice (prefer : Float → Float → Float) : PeriodObjective Float where
  arguments := none
  ofState x :=
    match x.toList with
    | first :: rest => .ok (rest.foldl prefer first)
    | [] => .error .badValue
  ofPeriod _ _ := .error .wrongKind

def ofFormula (call : Datum) (f : Formula) : PeriodObjective Float :=
  match call with
  | .whole 2 => timed f
  | .whole 3 => excessive 3
  | .text "var" => variadic f
  | .text "opt" => optional f
  | .text "builtin_max" => choice Scalar.larger
  | .text "builtin_min" => choice Scalar.smaller
  | _ => plain f

end Optima.PeriodObjective
