import LeastSquares.Dense.Reflection

/-!
# Singular values

A matrix is `u * s * vᵀ` with nonnegative values on the diagonal of `s`, as many as its shorter side
has entries, and with a left and a right direction for each of them. The columns of a tall matrix are
rotated in pairs until all of them are orthogonal; their lengths are then the singular values, their
directions the left directions, and the rotations make up the right ones. A wide matrix is transposed
first. A column that has become zero has no direction, and its left direction is zero as well.

The matrix is divided by its largest magnitude before the rotations. The number of sweeps over all
pairs is bounded; a sweep that rotates nothing is the last one.
-/

namespace LeastSquares.Dense

variable {α : Type} [Scalar α]

/-- The factors of a matrix with `m` rows and `n` columns. -/
structure SvdFactors (α : Type) where
  /-- The left directions as columns of length `m`. -/
  u : DenseMatrix α
  /-- The right directions as columns of length `n`. -/
  v : DenseMatrix α
  /-- The singular values, as many as the shorter side. -/
  sigma : List α

/-- A column of the rotated matrix beside the same column of the rotations. -/
structure RotatedColumn (α : Type) where
  /-- The column of the matrix. -/
  image : List α
  /-- The column of the rotations. -/
  source : List α

/-- The inner product of two lists. -/
def innerProduct (xs ys : List α) : α := Scalar.sumFromZero (Scalar.products xs ys)

/-- A combination of two lists. -/
def combine (c s : α) (xs ys : List α) : List α := List.zipWith (fun x y => c * x + s * y) xs ys

namespace RotatedColumn

/-- Cosine and sine of the rotation that makes two columns orthogonal, from their squared lengths and
their inner product. -/
def angle (lengthP lengthQ inner : α) : α × α :=
  let slope := (lengthQ - lengthP) / (Scalar.ofNat 2 * inner)
  let size := Scalar.abs slope + Scalar.sqrt (1 + slope * slope)
  let tangent := if Scalar.lt slope 0 then -(1 / size) else 1 / size
  let cosine := 1 / Scalar.sqrt (1 + tangent * tangent)
  (cosine, cosine * tangent)

/-- A pair of columns made orthogonal; none when they already are, to working precision. -/
def rotate? (p q : RotatedColumn α) : Option (RotatedColumn α × RotatedColumn α) :=
  let lengthP := innerProduct p.image p.image
  let lengthQ := innerProduct q.image q.image
  let inner := innerProduct p.image q.image
  let bound := Scalar.epsilon * (Scalar.sqrt lengthP * Scalar.sqrt lengthQ)
  if Scalar.lt bound (Scalar.abs inner) then
    let turn := angle lengthP lengthQ inner
    some
      (⟨combine turn.1 (-turn.2) p.image q.image, combine turn.1 (-turn.2) p.source q.source⟩,
        ⟨combine turn.2 turn.1 p.image q.image, combine turn.2 turn.1 p.source q.source⟩)
  else none

/-- Rotate a column against each of the later ones; whether anything turned. -/
def sweepOne (p : RotatedColumn α) :
    List (RotatedColumn α) → RotatedColumn α × List (RotatedColumn α) × Bool
  | [] => (p, [], false)
  | q :: rest =>
      match rotate? p q with
      | none =>
          let later := sweepOne p rest
          (later.1, q :: later.2.1, later.2.2)
      | some (p', q') =>
          let later := sweepOne p' rest
          (later.1, q' :: later.2.1, true)

/-- Rotate the pairs among the first `count` columns and those after them. -/
def sweep : Nat → List (RotatedColumn α) → List (RotatedColumn α) × Bool
  | 0, columns => (columns, false)
  | _ + 1, [] => ([], false)
  | count + 1, p :: rest =>
      let first := sweepOne p rest
      let later := sweep count first.2.1
      (first.1 :: later.1, first.2.2 || later.2)

/-- Sweep until nothing turns, at most `sweeps` times. -/
def sweepAll : Nat → List (RotatedColumn α) → List (RotatedColumn α)
  | 0, columns => columns
  | sweeps + 1, columns =>
      let swept := sweep columns.length columns
      if swept.2 then sweepAll sweeps swept.1 else swept.1

end RotatedColumn

/-- A singular value with its left and right direction. -/
structure SingularTriple (α : Type) where
  value : α
  left : List α
  right : List α

/-- The bound on the number of sweeps. -/
def maxSweeps : Nat := 60

/-- The singular value that a rotated column stands for, in units of `divisor`. -/
def RotatedColumn.triple (divisor : α) (column : RotatedColumn α) : SingularTriple α :=
  let length := scaledLength column.image
  { value := length * divisor
    left := column.image.map fun x => if Scalar.lt 0 length then x / length else 0
    right := column.source }

/-- The singular values of a matrix that is at least as tall as it is wide, the largest first. -/
def tallTriples (a : DenseMatrix α) : List (SingularTriple α) :=
  let scale := largestMagnitude (a.toRows.flatMap id)
  let divisor := if Scalar.lt 0 scale then scale else 1
  let start : List (RotatedColumn α) := (List.range a.ncols).map fun j =>
    ⟨(a.column j).map (· / divisor), (List.range a.ncols).map fun i => if i = j then 1 else 0⟩
  let triples := (RotatedColumn.sweepAll maxSweeps start).map (RotatedColumn.triple divisor)
  triples.mergeSort fun s t => !Scalar.lt s.value t.value

/-- The singular value decomposition of a matrix that is at least as tall as it is wide. -/
def tallFactors (a : DenseMatrix α) : SvdFactors α :=
  let triples := tallTriples a
  { u := .ofColumns a.nrows a.ncols (triples.map SingularTriple.left)
    v := .ofColumns a.ncols a.ncols (triples.map SingularTriple.right)
    sigma := triples.map SingularTriple.value }

/-- The singular value decomposition of a matrix of any shape. -/
def singularFactors (a : DenseMatrix α) : SvdFactors α :=
  if a.ncols ≤ a.nrows then tallFactors a
  else
    let wide := tallFactors a.transpose
    { u := wide.v, v := wide.u, sigma := wide.sigma }

end LeastSquares.Dense
