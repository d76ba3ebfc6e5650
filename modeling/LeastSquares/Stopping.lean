import LeastSquares.Norm
import LeastSquares.Status

/-!
# When to stop

An iteration stops when both the point and the objective have stopped moving. The point has when the
norm of its last change, measured against a tolerance for each leaf, is below one; the objective has
when its last change is below its own tolerance. A value that is not a number in either test means
going on. After a failure the iteration stops at once, with the status of the failure.
-/

namespace LeastSquares

variable {κ α : Type} [Scalar α]

/-- How small a change has to be. -/
structure Tolerance (α : Type) where
  /-- The part that grows with the magnitude. -/
  relative : α
  /-- The part that does not. -/
  absolute : α
deriving Repr

/-- The largest change that is allowed next to a value. -/
def Tolerance.bound (tolerance : Tolerance α) (x : α) : α :=
  tolerance.absolute + tolerance.relative * Scalar.abs x

/-- Whether the point has stopped moving. -/
def pointSettled (tolerance : Tolerance α) (norm : Norm α) (y diff : Tree κ α) : Checked Bool := do
  let scaled ← diff.zipWith (fun d x => d / tolerance.bound x) y
  return Scalar.lt (norm.apply scaled) 1

/-- Whether the objective has stopped moving. -/
def objectiveSettled (tolerance : Tolerance α) (objective previous : α) : Bool :=
  Scalar.lt (Scalar.abs (objective - previous)) (tolerance.bound objective)

/-- Whether to stop, and with what status. -/
def stopping (tolerance : Tolerance α) (norm : Norm α) (y diff : Tree κ α)
    (objective previous : α) (status : Status) : Checked (Bool × Status) :=
  if status.isSuccessful then do
    let settled ← pointSettled tolerance norm y diff
    return (settled && objectiveSettled tolerance objective previous, status)
  else .ok (true, status)

end LeastSquares
