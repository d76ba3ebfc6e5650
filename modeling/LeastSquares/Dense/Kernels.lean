import LeastSquares.Dense.FullPivotLu
import LeastSquares.Dense.Reflection
import LeastSquares.Dense.Cholesky
import LeastSquares.Dense.SingularValues

/-!
# Factorization kernels

The dense solvers get their factors from four kernels, and decide for themselves what counts as
singular and what is refused. The kernels are a class of their own, so that a statement about the
solvers can be made for any kernels, or for kernels that factor exactly; the standard kernels are the
ones of this library, and they work over every type of scalars.
-/

namespace LeastSquares.Dense

/-- The four factorizations as functions of the matrix. Each is used only on finite matrices of a
shape that fits it. -/
class Kernels (α : Type) where
  /-- The factors of a square matrix with full pivoting. -/
  lu : DenseMatrix α → LuFactors α
  /-- The orthogonal factorization of a matrix at least as tall as wide. -/
  qr : DenseMatrix α → QrFactors α
  /-- The lower triangular factor of a symmetric matrix, if every pivot is positive. -/
  cholesky : DenseMatrix α → Option (DenseMatrix α)
  /-- The singular value decomposition of a matrix, if it converges. -/
  svd : DenseMatrix α → Option (SvdFactors α)

/-- The kernels of this library. -/
@[reducible] def standardKernels {α : Type} [Scalar α] : Kernels α where
  lu := fullPivotLu
  qr := orthogonalFactors
  cholesky := choleskyFactor?
  svd := fun a => some (singularFactors a)

instance : Kernels Float := standardKernels

instance : Kernels Float32 := standardKernels

end LeastSquares.Dense
