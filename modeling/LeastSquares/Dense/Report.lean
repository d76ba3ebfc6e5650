/-!
# Refusals of the dense solvers

A dense solver refuses a system for one of six causes. Two of them, a missing factorization and a
shape that does not fit, say that the solver was called wrongly; the other four are about the
numbers. A report is a cause with notes, the latest note first.
-/

namespace LeastSquares.Dense

/-- The four factorizations. -/
inductive Factorization
  /-- Triangular factors with full pivoting. -/
  | lu
  /-- An orthogonal and a triangular factor. -/
  | qr
  /-- A triangular factor and its transpose. -/
  | cholesky
  /-- Singular values. -/
  | svd
deriving DecidableEq, Repr

/-- The name of a factorization. -/
def Factorization.name : Factorization → String
  | .lu => "Lu"
  | .qr => "Qr"
  | .cholesky => "Cholesky"
  | .svd => "Svd"

/-- Why a dense solver refused. -/
inductive Cause
  | notFactored
  | shapeMismatch
  | nonFiniteInput
  | singular
  | notPositiveDefinite
  | decomposition
deriving DecidableEq, Repr

namespace Cause

/-- Whether a cause is about the numbers and not about how the solver was called. -/
def isNumeric : Cause → Bool
  | .notFactored | .shapeMismatch => false
  | _ => true

/-- The text of a cause. -/
def message : Cause → String
  | .notFactored => "matrix was not factored before solving"
  | .shapeMismatch => "matrix shape is not supported by this factorization"
  | .nonFiniteInput => "matrix contains non-finite values"
  | .singular => "matrix is singular"
  | .notPositiveDefinite => "matrix is not positive definite"
  | .decomposition => "matrix decomposition failed"

/-- The name of a cause. -/
def name : Cause → String
  | .notFactored => "NotFactored"
  | .shapeMismatch => "ShapeMismatch"
  | .nonFiniteInput => "NonFiniteInput"
  | .singular => "Singular"
  | .notPositiveDefinite => "NotPositiveDefinite"
  | .decomposition => "Decomposition"

/-- Every cause. -/
def all : List Cause :=
  [.notFactored, .shapeMismatch, .nonFiniteInput, .singular, .notPositiveDefinite, .decomposition]

/-- The cause of a name. -/
def ofName? (name : String) : Option Cause := all.find? fun cause => cause.name == name

end Cause

/-- What a report says beyond its cause. -/
inductive Note
  | needsSquare (kind : Factorization) (nrows ncols : Nat)
  | needsTall (nrows ncols : Nat)
  | wellPosedNeedsSquare (nrows ncols : Nat)
  | rhsRows (length nrows : Nat)
  | rhsNotFinite
  /-- The smallest pivot counts as zero. The two numbers that were compared, the pivot and the cutoff,
  are not part of the note: they are what the rounding of an elimination makes them, and a report is the
  same for all types of scalars. -/
  | pivotBelowCutoff
  | pivotNotPositive
  | noConvergence
  | solutionNotFinite
  | notFactored (kind : Factorization)
  | solving (kind : Factorization) (nrows ncols : Nat)
deriving DecidableEq, Repr

namespace Note

/-- Dimensions in words. -/
def dims (nrows ncols : Nat) : String := toString nrows ++ "x" ++ toString ncols

/-- What a factorization is called where it asks for a square matrix. -/
def squareName : Factorization → String
  | .lu => "LU"
  | .qr => "QR"
  | .cholesky => "Cholesky"
  | .svd => "SVD"

/-- The text of a note. -/
def text : Note → String
  | .needsSquare kind m n => squareName kind ++ " needs a square matrix, got " ++ dims m n
  | .needsTall m n =>
      "QR least squares needs at least as many rows as columns, got " ++ dims m n
  | .wellPosedNeedsSquare m n =>
      "a well-posed solve needs a square matrix, got " ++ dims m n ++
        "; use `well_posed: None` for least squares"
  | .rhsRows length m =>
      "right-hand side has " ++ toString length ++ " rows but the matrix has " ++ toString m
  | .rhsNotFinite => "right-hand side contains non-finite values"
  | .pivotBelowCutoff => "LU pivot is below the rank cutoff"
  | .pivotNotPositive => "Cholesky factorization found a non-positive pivot"
  | .noConvergence => "SVD did not converge"
  | .solutionNotFinite => "solution is not finite"
  | .notFactored .lu => "Dense LU not factorized"
  | .notFactored .qr => "QR factorization not available for solve"
  | .notFactored .cholesky => "Cholesky not factorized"
  | .notFactored .svd => "SVD not computed"
  | .solving kind m n => kind.name ++ " solve of a " ++ dims m n ++ " system"

end Note

/-- A refusal: its cause, and notes with the latest first. -/
structure Report where
  cause : Cause
  notes : List Note := []
deriving DecidableEq, Repr

/-- A report with one more note. -/
def Report.attach (report : Report) (note : Note) : Report :=
  { report with notes := note :: report.notes }

end LeastSquares.Dense
