/-!
How a solve ended.
-/

namespace Optima

inductive Status where
  /-- All tolerances are met. -/
  | optimal
  /-- The budget of iterations was used up first. -/
  | maxIterations
  /-- A number was not finite, or a violated constraint had no slope to follow. -/
  | numericalError
  /-- The caller stopped the solve. -/
  | interrupted
deriving DecidableEq

namespace Status

def label : Status → String
  | optimal => "optimal"
  | maxIterations => "max_iterations"
  | numericalError => "numerical_error"
  | interrupted => "interrupted"

def code : Status → String
  | optimal => "OPTIMAL"
  | maxIterations => "MAX_ITERATIONS"
  | numericalError => "NUMERICAL_ERROR"
  | interrupted => "INTERRUPTED"

def isSuccessful (s : Status) : Bool := s == optimal

/-- Whether the solution may be used, even if it is not optimal. -/
def hasSolution (s : Status) : Bool := s != numericalError

def all : List Status := [optimal, maxIterations, numericalError, interrupted]

def ofLabel? (label : String) : Option Status := all.find? fun s => s.label == label

end Status

end Optima
