import LeastSquares.Descent

/-!
# Line searches

A line search picks a step size along a descent and answers the point it leads to. It is told the
objective, and what is known at the present point. A search that finds nothing better stays at the
present point, with the auxiliary output it was told there, and reports a failing status; on request
a failing status is thrown as an error.
-/

namespace LeastSquares

variable {κ α Aux : Type} [Scalar α]

/-- What a line search is told about the present point. -/
structure LineSearchOptions (κ α Aux : Type) where
  /-- The step size to start from. -/
  initStepSize : α
  /-- The residual or the gradient. -/
  vector : Tree κ α
  /-- The Jacobian or the Hessian. -/
  operator : Option (LinearOperator κ α) := none
  inverse : Option (LinearOperator κ α) := none
  objective : α
  aux : Aux
  /-- Whether vector and operator are a residual and its Jacobian. -/
  gaussNewton : Bool := false

namespace LineSearchOptions

/-- The part of the options that a descent is told. -/
def descentOptions (options : LineSearchOptions κ α Aux) : DescentOptions κ α :=
  { vector := some options.vector
    operator := options.operator
    inverse := options.inverse
    gaussNewton := options.gaussNewton }

/-- The change of the objective that a step promises to first order: twice the product of residual
and image of the step, or the product of gradient and step. Without a Jacobian nothing is known. -/
def predictedChange (options : LineSearchOptions κ α Aux) (diff : Tree κ α) :
    Checked (Option α) :=
  if options.gaussNewton then
    match options.operator with
    | none => .ok none
    | some operator => do
        let image ← operator.apply diff
        return some (Scalar.ofNat 2 * (← options.vector.dot image))
  else do return some (← dotLists options.vector.leaves diff.leaves)

end LineSearchOptions

/-- What one search leaves to the next. -/
structure LineSearchState (α : Type) where
  /-- The step size that the next search should start from. -/
  nextInit : α
  numSteps : Nat
deriving Repr

/-- Where a search ended. -/
structure LineSearchSolution (κ α Aux : Type) where
  value : Tree κ α
  status : Status
  state : LineSearchState α
  aux : Aux

/-- A way to pick the size of a step. The objective answers its value and the auxiliary output. -/
structure LineSearch (κ α Aux : Type) where
  /-- Search from a point along a descent; the flag asks for failing statuses to be thrown. -/
  search : (Tree κ α → Checked (α × Aux)) → Descent κ α → Tree κ α →
    LineSearchOptions κ α Aux → Bool → Outcome Error (LineSearchSolution κ α Aux)

namespace LineSearchSolution

/-- The solution itself, or the error of its status if failing statuses are thrown. -/
def deliver (throwing : Bool) (solution : LineSearchSolution κ α Aux) :
    Outcome Error (LineSearchSolution κ α Aux) :=
  if throwing && !solution.status.isSuccessful then
    Outcome.report (.lineSearch solution.status)
  else .ok solution

/-- The solution of a search that goes nowhere. -/
def stay (y : Tree κ α) (options : LineSearchOptions κ α Aux) (status : Status)
    (numSteps : Nat) : LineSearchSolution κ α Aux :=
  ⟨y, status, ⟨options.initStepSize, numSteps⟩, options.aux⟩

end LineSearchSolution

end LeastSquares
