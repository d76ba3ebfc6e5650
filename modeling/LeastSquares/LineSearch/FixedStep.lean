import LeastSquares.LineSearch.Basic

/-!
# Steps of a fixed size

The search that always takes one step of its own size, whatever size it is told to start from. The
objective is asked only for the auxiliary output at the new point.
-/

namespace LeastSquares

variable {κ α Aux : Type} [Scalar α]

/-- Steps of a fixed size. -/
structure FixedStep (α : Type) where
  size : α
deriving Repr

namespace FixedStep

/-- Full steps. -/
def full : FixedStep α := ⟨1⟩

/-- One step, unless the descent fails. -/
def attempt (search : FixedStep α) (objective : Tree κ α → Checked (α × Aux))
    (descent : Descent κ α) (y : Tree κ α) (options : LineSearchOptions κ α Aux) :
    Outcome Error (LineSearchSolution κ α Aux) := do
  let step ← descent.compute search.size options.descentOptions
  if step.status.isSuccessful then
    let value ← y.add step.diff
    let (_, aux) ← objective value
    return ⟨value, step.status, ⟨search.size, 1⟩, aux⟩
  else return .stay y options step.status 1

/-- A fixed step as a line search. -/
def toLineSearch (search : FixedStep α) : LineSearch κ α Aux where
  search objective descent y options throwing := do
    (← search.attempt objective descent y options).deliver throwing

end FixedStep

end LeastSquares
