import Optima.Scalar

/-!
Lower triangular matrices, kept row by row up to the diagonal, and the factorization of symmetric
matrices into a triangular matrix and its transpose.
-/

namespace Optima

/-- A row of a lower triangular matrix: its entries before the diagonal, and the one on it. -/
structure Triangular.Row (α : Type) where
  leading : List α
  diagonal : α

structure Triangular (α : Type) where
  rows : List (Triangular.Row α)

namespace Triangular

variable {α : Type} [Scalar α]

omit [Scalar α] in
def Row.toList (row : Row α) : List α := row.leading ++ [row.diagonal]

/-- The next unknown of a triangular system, after the ones that are known. -/
def substitute (known : List α) (row : Row α) (value : α) : α :=
  (value - Scalar.dot row.leading known) * (1 / row.diagonal)

/-- Solves `L y = b` by forward substitution. -/
def solve (L : Triangular α) (b : List α) : List α :=
  (L.rows.zip b).foldl (fun known (row, value) => known ++ [substitute known row value]) []

def apply (L : Triangular α) (y : List α) : List α :=
  L.rows.map fun row => Scalar.dot row.toList y

/-- Extends the factor of a symmetric matrix by the matrix's next row. There is no factor when the
matrix is not positive definite. -/
def extend? (L : Triangular α) (row : List α) : Option (Triangular α) :=
  let leading := L.solve row
  let pivot := row.getD L.rows.length 0 - Scalar.dot leading leading
  if Scalar.less 0 pivot then some ⟨L.rows ++ [⟨leading, Scalar.squareRoot pivot⟩]⟩ else none

/-- The triangular matrix `L` with `L Lᵀ` equal to a symmetric positive definite matrix, of which
only the lower triangle is read. -/
def factor? (rows : List (List α)) : Option (Triangular α) := rows.foldlM extend? ⟨[]⟩

/-- Extends the factor of a symmetric matrix by the matrix's next row. A row that depends on the
rows before it gets a zero on the diagonal. -/
def extend (L : Triangular α) (row : List α) : Triangular α :=
  let leading := (L.rows.zip row).foldl (fun known (r, value) =>
    known ++ [if Scalar.less 0 r.diagonal then substitute known r value else 0]) []
  let pivot := row.getD L.rows.length 0 - Scalar.dot leading leading
  ⟨L.rows ++ [⟨leading, if Scalar.less 0 pivot then Scalar.squareRoot pivot else 0⟩]⟩

/-- The triangular matrix `L` with `L Lᵀ` equal to a symmetric positive semidefinite matrix. -/
def factor (rows : List (List α)) : Triangular α := rows.foldl extend ⟨[]⟩

end Triangular

def isClose {α : Type} [Scalar α] (x y : α) : Bool :=
  Scalar.atMost (Scalar.magnitude (x - y)) (1e-8 + 1e-5 * Scalar.magnitude y)

def transposed {α : Type} [Scalar α] (dimension : Nat) (rows : List (List α)) : List (List α) :=
  (List.range dimension).map fun j => rows.map fun row => row.getD j 0

def isSymmetric {α : Type} [Scalar α] (rows : List (List α)) : Bool :=
  (rows.zip (transposed rows.length rows)).all fun (row, column) =>
    (row.zip column).all fun (x, y) => isClose x y

end Optima
