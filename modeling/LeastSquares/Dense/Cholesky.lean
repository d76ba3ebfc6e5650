import LeastSquares.Dense.Triangular

/-!
# The symmetric triangular factor

A symmetric positive definite matrix is the product of a lower triangular matrix and its transpose.
The factor is found row by row from the entries on and below the diagonal; the entries above the
diagonal are never read. There is no factor as soon as a pivot is not a positive number.
-/

namespace LeastSquares.Dense

variable {α : Type} [Scalar α]

/-- The entries of a row left of the diagonal, from the finished rows above it. -/
def choleskyRow (given : List α) (above : List (List α)) : List α :=
  above.zipIdx.foldl
    (fun row above_j =>
      let inner := Scalar.sumFromZero (Scalar.products row above_j.1)
      row ++ [(given.getD above_j.2 0 - inner) / above_j.1.getD above_j.2 0])
    []

/-- The next row of the factor; none when its pivot is not positive. -/
def choleskyStep? (a : DenseMatrix α) (above : List (List α)) : Option (List (List α)) :=
  let i := above.length
  let given := (a.row i).take (i + 1)
  let row := choleskyRow given above
  let pivot := given.getD i 0 - Scalar.sumFromZero (Scalar.products row row)
  if Scalar.lt 0 pivot then some (above ++ [row ++ [Scalar.sqrt pivot]]) else none

/-- The first `n` rows of the factor. -/
def choleskyRows? (a : DenseMatrix α) : Nat → Option (List (List α))
  | 0 => some []
  | n + 1 => (choleskyRows? a n).bind (choleskyStep? a)

/-- The lower triangular factor of a square matrix, if there is one. -/
def choleskyFactor? (a : DenseMatrix α) : Option (DenseMatrix α) :=
  (choleskyRows? a a.nrows).map fun rows =>
    .ofFn a.nrows a.nrows fun i j => (rows.getD i []).getD j 0

/-- The solution for one right-hand side, given the lower triangular factor. -/
def choleskySolve (lower : DenseMatrix α) (b : List α) : List α :=
  let middle := forwardSubstitution lower b lower.nrows
  backwardSubstitution lower.transpose lower.nrows middle

end LeastSquares.Dense
