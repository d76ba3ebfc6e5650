import LeastSquares.Iteration.Basic
import LeastSquares.LineSearch.FixedStep
import LeastSquares.LineSearch.Backtracking
import LeastSquares.Stopping

/-!
# The Gauss–Newton method

Each step linearizes the residual at the present point and hands the residual and its Jacobian to a
line search, which asks a descent for the steps it tries. A search whose trials ran out still moved
somewhere useful, so the step counts as successful; every other failure of the search is kept as the
status of the state, and the iteration then stops.

A state looks back: it holds the objective at the point its step started from, and the objective one
step before that.
-/

namespace LeastSquares

variable {κ α Aux : Type} [Scalar α]

/-- What is carried from one Gauss–Newton step to the next. -/
structure GaussNewtonState (κ α : Type) where
  /-- The step size that the next search starts from. -/
  stepSize : α
  /-- The change of the point over the last step. -/
  diff : Tree κ α
  /-- The objective at the start of the last step. -/
  objective : α
  /-- The objective at the start of the step before. -/
  previous : α
  status : Status

/-- A Gauss–Newton method. -/
structure GaussNewton (κ α Aux : Type) where
  tolerance : Tolerance α
  norm : Norm α := .standard
  descent : Descent κ α
  lineSearch : LineSearch κ α Aux

namespace GaussNewton

/-- Full Newton steps. -/
def plain [Dense.Kernels α] (tolerance : Tolerance α) : GaussNewton κ α Aux :=
  { tolerance := tolerance
    descent := NewtonDescent.toDescent {}
    lineSearch := FixedStep.full.toLineSearch }

/-- The state before the first step: nothing has been measured yet. -/
def start (y : Tree κ α) : GaussNewtonState κ α :=
  ⟨1, y.fill Scalar.infinity, Scalar.infinity, Scalar.infinity, .successful⟩

/-- What a line search is told at a point with the given linearization. -/
def searchOptions (linear : Linearization κ α Aux) (tags : Tags) (y : Tree κ α) (stepSize : α) :
    LineSearchOptions κ α Aux :=
  { initStepSize := stepSize
    vector := linear.value
    operator := some (.ofFunction linear.tangent y linear.value tags)
    inverse := none
    objective := sumSquares linear.value
    aux := linear.aux
    gaussNewton := true }

/-- The status of a step: running out of trials is no failure. -/
def stepStatus (status : Status) : Status :=
  Status.choose (status == .maxStepsReached) .successful status

/-- One step. -/
def step (method : GaussNewton κ α Aux) (residual : Residual κ α Aux) (tags : Tags)
    (y : Tree κ α) (state : GaussNewtonState κ α) :
    Outcome Error (Tree κ α × GaussNewtonState κ α × Aux) := do
  let linear ← Checked.toOutcome (residual.linearize y)
  let options := searchOptions linear tags y state.stepSize
  let found ← method.lineSearch.search residual.objective method.descent y options false
  let diff ← Checked.toOutcome (found.value.sub y)
  return (found.value,
    ⟨found.state.nextInit, diff, options.objective, state.objective, stepStatus found.status⟩,
    found.aux)

/-- Whether to stop. -/
def stop (method : GaussNewton κ α Aux) (y : Tree κ α) (state : GaussNewtonState κ α) :
    Checked (Bool × Status) :=
  stopping method.tolerance method.norm y state.diff state.objective state.previous state.status

/-- A Gauss–Newton method as an iterative solver. -/
def toSolver (method : GaussNewton κ α Aux) :
    IterativeSolver κ α Aux (GaussNewtonState κ α) where
  start _ _ y := .ok (start y)
  step := method.step
  stop _ _ y state := method.stop y state

end GaussNewton

end LeastSquares
