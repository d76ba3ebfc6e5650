import LeastSquares.Dense.Triangular

/-!
# Triangular factors with full pivoting

The rows and columns of a square matrix are reordered so that it becomes the product of a unit lower
and an upper triangular matrix. Every step of the elimination takes as its pivot the entry of largest
magnitude that is left. When nothing but zeros is left the elimination does nothing more, and the
zeros stand on the diagonal of the upper factor.
-/

namespace LeastSquares.Dense

variable {α : Type} [Scalar α]

/-- The factors of a reordered square matrix: the entry in row `rowOrder[i]` and column
`columnOrder[j]` of the matrix is the entry `i`, `j` of `lower * upper`. -/
structure LuFactors (α : Type) where
  lower : DenseMatrix α
  upper : DenseMatrix α
  rowOrder : List Nat
  columnOrder : List Nat

namespace LuFactors

/-- The magnitudes of the pivots. -/
def pivots (factors : LuFactors α) : List α := factors.upper.diagonal.map Scalar.abs

/-- The solution of the factored system for one right-hand side. -/
def solve (factors : LuFactors α) (b : List α) : List α :=
  let n := factors.upper.nrows
  let reordered := factors.rowOrder.map fun i => b.getD i 0
  let middle := forwardSubstitution factors.lower reordered n
  let unknowns := backwardSubstitution factors.upper n middle
  (List.range n).map fun j => unknowns.getD (factors.columnOrder.idxOf j) 0

end LuFactors

/-- An elimination under way: what is left of the matrix, with the multipliers of the finished steps
below the diagonal, and the order of rows and columns so far. -/
structure Elimination (α : Type) where
  work : DenseMatrix α
  rowOrder : List Nat
  columnOrder : List Nat

namespace Elimination

/-- The elimination of a matrix before its first step. -/
def start (a : DenseMatrix α) : Elimination α :=
  ⟨a, List.range a.nrows, List.range a.ncols⟩

/-- The positions of an `n` by `n` matrix from row and column `k` on. -/
def positionsFrom (n k : Nat) : List (Nat × Nat) :=
  (List.range' k (n - k)).flatMap fun i => (List.range' k (n - k)).map fun j => (i, j)

/-- The position of the first entry of largest magnitude from row and column `k` on. -/
def pivotPosition (work : DenseMatrix α) (k : Nat) : Nat × Nat :=
  (positionsFrom work.nrows k).foldl
    (fun best p =>
      if Scalar.lt (Scalar.abs (work.entry best.1 best.2)) (Scalar.abs (work.entry p.1 p.2))
      then p else best)
    (k, k)

/-- Exchange two positions. -/
def exchange (p q i : Nat) : Nat := if i = p then q else if i = q then p else i

/-- Exchange two entries of a list. -/
def exchangeEntries (p q : Nat) (order : List Nat) : List Nat :=
  (List.range order.length).map fun i => order.getD (exchange p q i) 0

/-- Bring the pivot of step `k` to the diagonal. -/
def bringPivot (k : Nat) (state : Elimination α) : Elimination α :=
  let pivot := pivotPosition state.work k
  { work := .ofFn state.work.nrows state.work.ncols fun i j =>
      state.work.entry (exchange k pivot.1 i) (exchange k pivot.2 j)
    rowOrder := exchangeEntries k pivot.1 state.rowOrder
    columnOrder := exchangeEntries k pivot.2 state.columnOrder }

/-- The multiplier that clears row `i` in column `k`; zero when the pivot is zero. -/
def multiplier (work : DenseMatrix α) (k i : Nat) : α :=
  if Scalar.lt 0 (Scalar.abs (work.entry k k)) then work.entry i k * (1 / work.entry k k) else 0

/-- Clear column `k` below the diagonal and keep the multipliers in its place. -/
def clear (k : Nat) (work : DenseMatrix α) : DenseMatrix α :=
  .ofFn work.nrows work.ncols fun i j =>
    if k < i then
      if j = k then multiplier work k i
      else if k < j then work.entry i j - multiplier work k i * work.entry k j
      else work.entry i j
    else work.entry i j

/-- Step `k` of the elimination. -/
def step (state : Elimination α) (k : Nat) : Elimination α :=
  let pivoted := state.bringPivot k
  { pivoted with work := clear k pivoted.work }

/-- The factors of a finished elimination. -/
def factors (state : Elimination α) : LuFactors α :=
  let n := state.work.nrows
  { lower := .ofFn n n fun i j =>
      if i = j then 1 else if j < i then state.work.entry i j else 0
    upper := .ofFn n n fun i j => if j < i then 0 else state.work.entry i j
    rowOrder := state.rowOrder
    columnOrder := state.columnOrder }

end Elimination

/-- The factors of a square matrix. -/
def fullPivotLu (a : DenseMatrix α) : LuFactors α :=
  ((List.range a.nrows).foldl Elimination.step (Elimination.start a)).factors

end LeastSquares.Dense
