import LeastSquares.Norm

/-!
# Residuals

A residual is a function from trees to trees together with its directional derivative. Beside the
residual it answers an auxiliary output, which is carried along and never optimised. The objective of
a least-squares problem is the sum of squares of the residual.
-/

namespace LeastSquares

variable {κ α Aux : Type}

/-- A residual with its directional derivative. -/
structure Residual (κ α Aux : Type) where
  /-- The residual and the auxiliary output at a point. -/
  value : Tree κ α → Checked (Tree κ α × Aux)
  /-- The derivative at a point along a direction. -/
  tangent : Tree κ α → Tree κ α → Checked (Tree κ α)

/-- A residual near a point. -/
structure Linearization (κ α Aux : Type) where
  value : Tree κ α
  tangent : Tree κ α → Checked (Tree κ α)
  aux : Aux

namespace Residual

/-- The residual at a point with its derivative there. -/
def linearize (residual : Residual κ α Aux) (y : Tree κ α) :
    Checked (Linearization κ α Aux) := do
  let (value, aux) ← residual.value y
  return ⟨value, residual.tangent y, aux⟩

/-- The auxiliary output at a point. -/
def auxAt (residual : Residual κ α Aux) (y : Tree κ α) : Checked Aux := do
  return (← residual.value y).2

/-- The objective at a point, with the auxiliary output. -/
def objective [Scalar α] (residual : Residual κ α Aux) (y : Tree κ α) : Checked (α × Aux) := do
  let (value, aux) ← residual.value y
  return (sumSquares value, aux)

end Residual

end LeastSquares
