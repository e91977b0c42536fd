import Optima.Fault
import Optima.Summation

/-!
Statistics of values that have probabilities. Values that cannot occur are left out before anything
is summed, and the probabilities of the others are divided by their total, so they need not sum to
one.
-/

namespace Optima

variable {α β : Type} [Scalar α]

def isPossible (probability : α) : Bool := Scalar.less 0 probability

/-- The members of a list whose probabilities, in a list beside it, are positive. -/
def possible (probabilities : List α) (items : List β) : List β :=
  ((probabilities.zip items).filter fun pair => isPossible pair.1).map (·.2)

/-- The weights of what can occur: positive probabilities divided by their total. -/
def normalizedWeights (probabilities : List α) : Except Fault (List α) :=
  if probabilities.any fun p => Scalar.less p 0 || !Scalar.isFinite p then
    .error (.misuse .probabilityList)
  else
    let positive := probabilities.filter isPossible
    let total := Scalar.total positive
    if Scalar.atMost total 0 then .error (.misuse .totalProbability)
    else .ok (positive.map (· / total))

def weightsFor (values probabilities : List α) : Except Fault (List α) :=
  if values.length == probabilities.length then normalizedWeights probabilities
  else .error (.mismatch (.unpairedValues values.length probabilities.length))

def meanOf (weights values : List α) : α :=
  Scalar.total (List.zipWith (· * ·) weights values)

def varianceOf (weights values : List α) : α :=
  let mean := meanOf weights values
  Scalar.total (List.zipWith (fun w v => w * (v - mean) * (v - mean)) weights values)

def weightedMean (values probabilities : List α) : Except Fault α := do
  let weights ← weightsFor values probabilities
  return meanOf weights (possible probabilities values)

def weightedVariance (values probabilities : List α) : Except Fault α := do
  let weights ← weightsFor values probabilities
  return varianceOf weights (possible probabilities values)

def intervalAround (estimate standardError errors : α) : α × α :=
  (estimate - errors * standardError, estimate + errors * standardError)

/-- How many standard errors a two-sided interval of a given level extends to, from the quantiles of
the distribution of the error. -/
def errorsAt (quantile : α → α) (level : α) : α := quantile (0.5 + level / 2.0)

end Optima
