import LeastSquares.Dense.Triangular

/-!
# The orthogonal factorization

A matrix with at least as many rows as columns is the product of an orthogonal and an upper
triangular matrix. Each step reflects one column onto its leading entry, and the orthogonal factor is
kept as the list of these reflections, one for each column: applied in their order they turn the
matrix into the triangular one, and a right-hand side into the coordinates of that factor.

A reflection touches the rows from its leading one on, and nothing at all when no row is below that
one. A column that is negligible below the diagonal gets a reflection of rate zero, which moves
nothing but values that are not finite.

Magnitudes are scaled by the largest entry before they are squared, so that neither very large nor
very small columns spoil their length.
-/

namespace LeastSquares.Dense

variable {α : Type} [Scalar α]

/-- The largest magnitude of a list. -/
def largestMagnitude (xs : List α) : α :=
  xs.foldl (fun largest x => Scalar.max largest (Scalar.abs x)) 0

/-- The Euclidean length of a list, through entries of magnitude at most one. -/
def scaledLength (xs : List α) : α :=
  let largest := largestMagnitude xs
  if Scalar.lt 0 largest && Scalar.isFinite largest then
    largest * Scalar.sqrt (Scalar.sumFromZero (xs.map fun x => (x / largest) * (x / largest)))
  else largest

/-- Whether a length is too small for a direction: zero, or below full precision. -/
def negligible (length : α) : Bool := Scalar.lt length Scalar.minNormal || !Scalar.lt 0 length

/-- A reflection: the identity less `rate` times the product of a direction with itself. -/
structure Reflection (α : Type) where
  /-- The leading row, where the direction is one; above it the direction is zero. -/
  start : Nat
  /-- The direction below the leading row. -/
  tail : List α
  /-- Two over the squared length of the direction, or zero. -/
  rate : α

namespace Reflection

/-- The image of the part of a vector from the leading row on. -/
def applyFrom (reflection : Reflection α) : List α → List α
  | [] => []
  | head :: rest =>
      if reflection.tail.isEmpty then head :: rest
      else
        let inner := head + Scalar.sumFromZero (Scalar.products reflection.tail rest)
        let share := inner * reflection.rate
        (head - share) :: List.zipWith (fun x v => x - share * v) rest reflection.tail

/-- The image of a vector. -/
def apply (reflection : Reflection α) (xs : List α) : List α :=
  xs.take reflection.start ++ reflection.applyFrom (xs.drop reflection.start)

/-- A reflection with what it turns the leading entry of a column into. -/
structure Clearing (α : Type) where
  reflection : Reflection α
  /-- The leading entry of the image of the column, whose other entries are zero. -/
  pivot : α

/-- The reflection that clears a column below row `k`, given the entry in that row and the entries
below it. -/
def clearing (k : Nat) (head : α) (tail : List α) : Clearing α :=
  let tailLength := scaledLength tail
  let lead := if Scalar.lt (Scalar.abs head) Scalar.minNormal then 0 else head
  if negligible tailLength then ⟨⟨k, tail, 0⟩, lead⟩
  else
    let length := scaledLength [lead, tailLength]
    let signed := if Scalar.lt lead 0 then -length else length
    let inverse := 1 / (lead + signed)
    let direction := tail.map fun x =>
      if Scalar.isFinite inverse then x * inverse else x / (lead + signed)
    let ratio := tailLength * Scalar.abs inverse
    ⟨⟨k, direction, 1 / (Scalar.half * (1 + ratio * ratio))⟩, -signed⟩

end Reflection

/-- The factors of a matrix. -/
structure QrFactors (α : Type) where
  /-- The reflections whose product is the transposed orthogonal factor, the first one first. -/
  reflections : List (Reflection α)
  /-- The triangular factor, with the dimensions of the matrix. -/
  r : DenseMatrix α

namespace QrFactors

/-- The right-hand side in the coordinates of the orthogonal factor. -/
def rotate (factors : QrFactors α) (b : List α) : List α :=
  factors.reflections.foldl (fun xs reflection => reflection.apply xs) b

/-- The least-squares solution for one right-hand side. -/
def solve (factors : QrFactors α) (b : List α) : List α :=
  backwardSubstitution factors.r factors.r.ncols (factors.rotate b)

/-- Clear column `k` below the diagonal, and reflect the columns after it. -/
def step (state : QrFactors α) (k : Nat) : QrFactors α :=
  let column := state.r.column k
  let below := column.drop (k + 1)
  let cleared := Reflection.clearing k (column.getD k 0) below
  let image (j : Nat) : List α :=
    if j < k then state.r.column j
    else if j = k then column.take k ++ cleared.pivot :: below.map fun _ => 0
    else cleared.reflection.apply (state.r.column j)
  { reflections := state.reflections ++ [cleared.reflection]
    r := .ofColumns state.r.nrows state.r.ncols ((List.range state.r.ncols).map image) }

end QrFactors

/-- The orthogonal factorization of a matrix. -/
def orthogonalFactors (a : DenseMatrix α) : QrFactors α :=
  (List.range (Nat.min a.nrows a.ncols)).foldl QrFactors.step ⟨[], a⟩

end LeastSquares.Dense
