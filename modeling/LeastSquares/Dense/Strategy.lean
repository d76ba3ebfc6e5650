import LeastSquares.Dense.Report

/-!
# Choosing a factorization

A strategy names a factorization, or leaves the choice to the shape of the matrix and to what the
caller knows about it. The automatic choice takes a square matrix to triangular factors, to the
symmetric ones if the matrix is tagged symmetric and positive semidefinite; a tall matrix to the
orthogonal factorization; and a wide one to the singular values. A caller who declares the problem
well posed gets no least squares: a shape other than square is refused.
-/

namespace LeastSquares

/-- What the caller knows about a linear map. -/
structure Tags where
  /-- The map equals its transpose. -/
  symmetric : Bool := false
  /-- No vector has a negative product with its image. -/
  positiveSemidefinite : Bool := false
deriving DecidableEq, Repr

/-- Symmetric and positive semidefinite. -/
def Tags.gramian : Tags := ⟨true, true⟩

end LeastSquares

namespace LeastSquares.Dense

/-- How to choose the factorization for a solve. -/
inductive Strategy
  /-- By shape and tags. Without a declaration a shape other than square is solved by least squares;
  declared well posed it is refused; declared not well posed every shape is solved by singular
  values. -/
  | auto (wellPosed : Option Bool)
  | lu
  | qr
  | cholesky
  | svd
deriving DecidableEq, Repr

namespace Strategy

/-- The strategy that is used unless another is asked for. -/
def standard : Strategy := .auto none

instance : Inhabited Strategy := ⟨standard⟩

/-- The factorization for a matrix of the given shape. -/
def factorization (strategy : Strategy) (nrows ncols : Nat) (tags : Tags) :
    Except Report Factorization :=
  match strategy with
  | .lu => .ok .lu
  | .qr => .ok .qr
  | .cholesky => .ok .cholesky
  | .svd => .ok .svd
  | .auto (some false) => .ok .svd
  | .auto wellPosed =>
      if nrows = ncols then
        if tags.symmetric && tags.positiveSemidefinite then .ok .cholesky else .ok .lu
      else if wellPosed = some true then
        .error ⟨.shapeMismatch, [.wellPosedNeedsSquare nrows ncols]⟩
      else if ncols < nrows then .ok .qr
      else .ok .svd

end Strategy

end LeastSquares.Dense
