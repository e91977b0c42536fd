import Optima.Random.Environment
import Optima.Random.Source
import Optima.Vec

/-!
Distributions that parameters are drawn from: independent normal ones, correlated normal ones,
uniform ones, and past observations drawn as a whole, with repetition.
-/

namespace Optima

inductive Distribution (α : Type) where
  | normal (mean deviations : Vec α)
  | correlated (mean : Vec α) (covariance : List (List α))
  | uniform (low high : Vec α)
  | empirical (first : Vec α) (rest : List (Vec α))

namespace Distribution

variable {α : Type}

def dimension : Distribution α → Nat
  | normal mean _ => mean.size
  | correlated mean _ => mean.size
  | uniform low _ => low.size
  | empirical first _ => first.size

variable [Scalar α]

def deviationsOf (covariance : List (List α)) : List α :=
  covariance.zipIdx.map fun (row, i) => Scalar.squareRoot (row.getD i 0)

/-- The sum of vectors, component by component. Single components are added up like a list. -/
def total (first : Vec α) (rest : List (Vec α)) : List α :=
  if first.size == 1 then [Scalar.total ((first :: rest).flatMap Vec.toList)]
  else rest.foldl (fun sum v => List.zipWith (· + ·) sum v.toList) first.toList

def mean : Distribution α → Vec α
  | normal mean _ => mean
  | correlated mean _ => mean
  | uniform low high => ⟨List.zipWith (fun l h => (l + h) / 2.0) low.toList high.toList⟩
  | empirical first rest =>
    ⟨(total first rest).map (· / Scalar.natural (rest.length + 1))⟩

variable {σ : Type}

def draw (correlation : Correlation α) (source : Source σ α) : Distribution α → Draw σ (Vec α)
  | normal mean deviations => do
    let x ← Draw.each (fun (entry : α × α) => do
      return entry.1 + entry.2 * (← Draw.ofStep source.normal))
      (mean.toList.zip deviations.toList)
    return ⟨x⟩
  | correlated mean covariance => do
    let x ← Draw.many (Draw.ofStep source.normal) mean.size
    return ⟨mean.toList.zipIdx.map fun (m, i) => correlation covariance x i + m⟩
  | uniform low high => do
    let x ← Draw.each (fun (ends : α × α) => do
      return ends.1 + (ends.2 - ends.1) * (← Draw.ofStep source.unit))
      (low.toList.zip high.toList)
    return ⟨x⟩
  | empirical first rest => do
    let i ← Draw.ofStep (source.position (rest.length + 1))
    return (first :: rest).getD i first

/-- Draws that cannot be made: from intervals that are too wide to measure. -/
def isMeasurable : Distribution α → Bool
  | uniform low high =>
    (List.zipWith (fun l h => Scalar.isFinite (h - l)) low.toList high.toList).all id
  | _ => true

def sample (correlation : Correlation α) (source : Source σ α) (d : Distribution α) (count : Nat) :
    Draw σ (List (Vec α)) := do
  if !d.isMeasurable then throw .tooLarge
  Draw.many (d.draw correlation source) count

end Distribution

end Optima
