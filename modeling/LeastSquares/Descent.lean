import LeastSquares.Operator
import LeastSquares.Norm

/-!
# Descents

A descent turns a step size into a step. Newton's descent solves the operator against the vector and
steps along the negative of the solution; for a residual and its Jacobian that is the Gauss–Newton
step. The direction can be brought to unit length first, unless its length is zero or not a finite
number. A numerical failure of the solve is a status of the step and not an error.
-/

namespace LeastSquares

variable {κ α : Type} [Scalar α] [Dense.Kernels α]

/-- What a descent is told about the present point. -/
structure DescentOptions (κ α : Type) where
  /-- The vector to solve for: a residual, or a gradient. -/
  vector : Option (Tree κ α) := none
  /-- The operator to solve against: a Jacobian, or a Hessian. -/
  operator : Option (LinearOperator κ α) := none
  /-- The inverse of the operator; it is preferred when it is given. -/
  inverse : Option (LinearOperator κ α) := none
  /-- Whether vector and operator are a residual and its Jacobian. -/
  gaussNewton : Bool := false

/-- A step with the status of computing it. -/
structure DescentStep (κ α : Type) where
  /-- What to add to the present point. -/
  diff : Tree κ α
  status : Status

/-- A way to compute a step from a step size. -/
structure Descent (κ α : Type) where
  compute : α → DescentOptions κ α → Outcome Error (DescentStep κ α)

/-- Newton's descent. -/
structure NewtonDescent (α : Type) where
  /-- The norm that the direction is brought to unit length in, if any. -/
  norm : Option (Norm α) := none
  /-- How to solve the linear system. -/
  linearSolver : Dense.Strategy := .standard

namespace NewtonDescent

/-- The solution of the system, as a value and a status. -/
def direction (descent : NewtonDescent α) (options : DescentOptions κ α) :
    Outcome Error (LinearOperator.Solution κ α) :=
  match options.vector with
  | none => Outcome.report .missingVector
  | some vector =>
      match options.inverse, options.operator with
      | some inverse, _ => do return ⟨← inverse.apply vector, .successful⟩
      | none, some operator => operator.solve vector descent.linearSolver
      | none, none => Outcome.report .missingOperator

/-- A direction scaled to unit length, where its length allows it. -/
def normalize (norm : Option (Norm α)) (newton : Tree κ α) : Tree κ α :=
  match norm with
  | none => newton
  | some norm =>
      let length := norm.apply newton
      if Scalar.lt 0 length && Scalar.isFinite length then newton.scale (1 / length) else newton

/-- The step of the given size: so many times the negative of the direction. -/
def compute (descent : NewtonDescent α) (stepSize : α) (options : DescentOptions κ α) :
    Outcome Error (DescentStep κ α) := do
  let solution ← descent.direction options
  return ⟨(normalize descent.norm solution.value).scale (-stepSize), solution.status⟩

/-- Newton's descent as a descent. -/
def toDescent (descent : NewtonDescent α) : Descent κ α := ⟨descent.compute⟩

end NewtonDescent

end LeastSquares
