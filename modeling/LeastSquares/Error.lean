import LeastSquares.Fault
import LeastSquares.Status
import LeastSquares.Dense.Report

/-!
# Errors

Errors come from the way a computation was set up, or from a failing status that the caller asked to
have thrown. Trouble with the numbers of a linear system is a status and not an error; a linear solver
that was called wrongly is an error and has no status.
-/

namespace LeastSquares

/-- What was wrong with the way a computation was set up or ended. -/
inductive Error
  | missingVector
  | missingOperator
  | structureMismatch (expected actual : Nat)
  | linearSolver (report : Dense.Report)
  | lineSearch (status : Status)
  | solve (status : Status) (numSteps : Nat)
deriving DecidableEq, Repr

namespace Error

/-- The failing status behind an error, if there is one. -/
def status? : Error → Option Status
  | .lineSearch status => some status
  | .solve status _ => some status
  | _ => none

/-- The name of an error. -/
def name : Error → String
  | .missingVector => "MissingVector"
  | .missingOperator => "MissingOperator"
  | .structureMismatch _ _ => "StructureMismatch"
  | .linearSolver _ => "LinearSolverConfig"
  | .lineSearch _ => "LineSearch"
  | .solve _ _ => "Solve"

/-- The text of an error. -/
def message : Error → String
  | .missingVector => "`vector` must be passed to the descent via its options"
  | .missingOperator =>
      "At least one of `operator` or `operator_inv` must be passed to `NewtonDescent` via its options"
  | .structureMismatch expected actual =>
      "Expected a tree with " ++ toString expected ++ " leaves, found " ++ toString actual
  | .linearSolver report =>
      "The linear solver was misconfigured: " ++
        "; ".intercalate (report.cause.message :: report.notes.map Dense.Note.text)
  | .lineSearch status => "The line search failed: " ++ status.text
  | .solve status numSteps =>
      "The solve failed after " ++ toString numSteps ++ " steps: " ++ status.text

end Error

/-- The status of a linear solve that failed on its numbers; none when it was called wrongly. -/
def Status.ofCause? (cause : Dense.Cause) : Option Status :=
  if cause.isNumeric then
    match cause with
    | .singular => some .singular
    | .nonFiniteInput => some .nonFiniteInput
    | _ => some .breakdown
  else none

end LeastSquares
