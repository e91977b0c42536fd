import Optima.Scalar

/-!
Sums of long lists. Rounding errors grow with the number of additions that a term goes through, so a
long list is cut in two and a list of middle length is added up in eight lanes at once. Over exact
numbers every sum is the plain one.
-/

namespace Optima.Scalar

variable {α : Type} [Scalar α]

def laneCount : Nat := 8

/-- The length up to which a list is not cut in two. -/
def blockSize : Nat := 128

/-- Adds chunk after chunk to the lanes, as many as asked for; the lanes and the rest of the list.
-/
def fillLanes : (chunks : Nat) → (lanes rest : List α) → List α × List α
  | 0, lanes, rest => (lanes, rest)
  | chunks + 1, lanes, rest =>
    fillLanes chunks (List.zipWith (· + ·) lanes (rest.take laneCount)) (rest.drop laneCount)

/-- The sum of the lanes, neighbours first. -/
def joinLanes : List α → α
  | [a, b, c, d, e, f, g, h] => ((a + b) + (c + d)) + ((e + f) + (g + h))
  | lanes => sum lanes

/-- The sum of a list of at least eight members in lanes; what does not fill them is added at the
end. -/
def laneSum (xs : List α) : α :=
  let (lanes, rest) :=
    fillLanes (xs.length / laneCount - 1) (xs.take laneCount) (xs.drop laneCount)
  rest.foldl (· + ·) (joinLanes lanes)

/-- The sum of a short list from left to right; the first member starts it. -/
def shortSum : List α → α
  | [] => 0
  | x :: xs => xs.foldl (· + ·) x

/-- Where a long list is cut: in the middle, but between full chunks. -/
def cutPoint (length : Nat) : Nat := length / 2 - length / 2 % laneCount

theorem cutPoint_pos {n : Nat} (h : blockSize < n) : 0 < cutPoint n := by
  have hn : 128 < n := h
  show 0 < n / 2 - n / 2 % 8
  omega

theorem cutPoint_lt {n : Nat} (h : blockSize < n) : cutPoint n < n := by
  have hn : 128 < n := h
  show n / 2 - n / 2 % 8 < n
  omega

def total (xs : List α) : α :=
  if xs.length < laneCount then shortSum xs
  else if blockSize < xs.length then
    total (xs.take (cutPoint xs.length)) + total (xs.drop (cutPoint xs.length))
  else laneSum xs
termination_by xs.length
decreasing_by
  · have := cutPoint_lt ‹blockSize < xs.length›
    simp only [List.length_take]
    omega
  · have := cutPoint_pos ‹blockSize < xs.length›
    simp only [List.length_drop, blockSize] at *
    omega

end Optima.Scalar
