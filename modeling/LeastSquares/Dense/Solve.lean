import LeastSquares.Dense.Strategy
import LeastSquares.Dense.Solver

/-!
# Solving a dense system

One solve goes through its checks in a fixed order: the length of the right-hand side, the empty
system, the strategy, the entries of the right-hand side, and then the checks of the factorization
that was selected. A refusal by the factorization is noted with the shape of the system.
-/

namespace LeastSquares.Dense

variable {α : Type} [Scalar α] [Kernels α]

/-- Factor a matrix and solve for the given right-hand sides. -/
def solveBy (kind : Factorization) (a b : DenseMatrix α) :
    Outcome Report (DenseMatrix α) :=
  match factor kind a with
  | .ok factored => factored.solve b
  | .error report => Outcome.report report

/-- The right-hand side as a column as long as the longer side of the matrix. -/
def paddedColumn (nrows ncols : Nat) (b : List α) : DenseMatrix α :=
  .ofFn (Nat.max nrows ncols) 1 fun i _ => b.getD i 0

/-- The `x` with `a x = b`, or the one with the least sum of squares of `a x - b`. -/
def solve (strategy : Strategy) (a : DenseMatrix α) (b : List α) (tags : Tags) :
    Outcome Report (List α) :=
  if b.length ≠ a.nrows then
    Outcome.report ⟨.shapeMismatch, [.rhsRows b.length a.nrows]⟩
  else if a.ncols = 0 then .ok []
  else
    match strategy.factorization a.nrows a.ncols tags with
    | .error report => Outcome.report report
    | .ok kind =>
        if b.all Scalar.isFinite then
          let solved := solveBy kind a (paddedColumn a.nrows a.ncols b)
          (solved.mapReport fun report => report.attach (.solving kind a.nrows a.ncols)).map
            fun x => (x.column 0).take a.ncols
        else Outcome.report ⟨.nonFiniteInput, [.rhsNotFinite]⟩

end LeastSquares.Dense
