import LeastSquares.Tree.Arithmetic

/-!
# Norms of trees

The three built-in norms read the leaves of a tree and nothing else: the largest magnitude, the root
of the mean square, and the root of the sum of squares. The largest magnitude is not a number as soon
as one leaf is not a number, although a comparison would drop such a leaf. A norm can also be any
other function of the leaves.
-/

namespace LeastSquares

variable {κ α : Type} [Scalar α]

/-- The sum of the squares of a list, added up from the left. -/
def sumSquaresOf (xs : List α) : α := Scalar.sum (xs.map fun x => x * x)

/-- One step of `maxMagnitude`: a value that is not a number, on either side, stays. -/
def maxMagnitudeStep (largest x : α) : α :=
  if Scalar.isNaN largest || Scalar.isNaN x then Scalar.nan
  else Scalar.max largest (Scalar.abs x)

/-- The largest magnitude of a list; zero for the empty list. -/
def maxMagnitude (xs : List α) : α := xs.foldl maxMagnitudeStep 0

/-- The square root of the sum of squares. -/
def rootSumSquares (xs : List α) : α := Scalar.sqrt (sumSquaresOf xs)

/-- The square root of the mean square; zero for the empty list. -/
def rootMeanSquare (xs : List α) : α :=
  if xs.isEmpty then 0 else rootSumSquares xs / Scalar.sqrt (Scalar.ofNat xs.length)

/-- The sum of the magnitudes, added up from the left onto zero. -/
def sumAbs (xs : List α) : α := Scalar.sumFromZero (xs.map Scalar.abs)

/-- The least-squares objective of a residual: the sum of squares of its leaves. -/
def sumSquares (t : Tree κ α) : α := sumSquaresOf t.leaves

/-- How to measure a tree. -/
inductive Norm (α : Type)
  /-- The largest magnitude. -/
  | max
  /-- The root of the mean square. -/
  | rms
  /-- The Euclidean norm. -/
  | two
  /-- Any function of the leaves in flattening order. -/
  | custom (measure : List α → α)

namespace Norm

/-- The norm that is used unless another is asked for. -/
def standard : Norm α := .max

instance : Inhabited (Norm α) := ⟨standard⟩

/-- The name of a norm. -/
def name : Norm α → String
  | .max => "Max"
  | .rms => "Rms"
  | .two => "Two"
  | .custom _ => "Custom"

/-- Measure a list of leaves. -/
def ofLeaves : Norm α → List α → α
  | .max, xs => maxMagnitude xs
  | .rms, xs => rootMeanSquare xs
  | .two, xs => rootSumSquares xs
  | .custom measure, xs => measure xs

/-- Measure a tree. -/
def apply (norm : Norm α) (t : Tree κ α) : α := norm.ofLeaves t.leaves

/-- The norm that adds up magnitudes. -/
def one : Norm α := .custom sumAbs

end Norm

end LeastSquares
