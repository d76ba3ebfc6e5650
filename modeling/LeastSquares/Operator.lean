import LeastSquares.Error
import LeastSquares.Tree.Arithmetic
import LeastSquares.Dense.Solve

/-!
# Linear operators

A linear operator maps trees with the skeleton of its domain to trees with the skeleton of its
codomain. It is given by a function, and then its matrix over the flattened leaves is found by
applying it to the unit trees of the domain, one column at a time; or it is given by a matrix.

Solving against an operator solves its matrix. Trouble with the numbers comes back as a status, and
the solution then holds no numbers; a solver that was called wrongly is an error.
-/

namespace LeastSquares

variable {κ α : Type} [Scalar α]

/-- A linear map between trees. -/
structure LinearOperator (κ α : Type) where
  /-- A tree with the skeleton of the arguments. -/
  domain : Tree κ α
  /-- A tree with the skeleton of the images. -/
  codomain : Tree κ α
  tags : Tags
  apply : Tree κ α → Checked (Tree κ α)
  /-- The map as a matrix over the flattened leaves. -/
  matrix : Checked (DenseMatrix α)

/-- The leaves of the image of a unit tree, which may not be longer than a column. -/
def columnOf (apply : Tree κ α → Checked (Tree κ α)) (domain : Tree κ α) (nrows j : Nat) :
    Checked (List α) := do
  let image ← apply (domain.unit j)
  Checked.require (image.leaves.length ≤ nrows) (.outOfRange nrows nrows)
  return image.leaves

/-- The matrix of a map, one column for each leaf of the domain. A column that is too short is filled
up with zeros. -/
def materialize (apply : Tree κ α → Checked (Tree κ α)) (domain codomain : Tree κ α) :
    Checked (DenseMatrix α) := do
  let columns ← (List.range domain.size).mapM (columnOf apply domain codomain.size)
  return .ofColumns codomain.size domain.size columns

namespace LinearOperator

/-- The operator of a function; the two trees count only by their skeletons. -/
def ofFunction (apply : Tree κ α → Checked (Tree κ α)) (domain codomain : Tree κ α)
    (tags : Tags) : LinearOperator κ α :=
  ⟨domain, codomain, tags, apply, materialize apply domain codomain⟩

/-- The image of a tree under a matrix over flattened leaves. -/
def applyMatrix (a : DenseMatrix α) (codomain : Tree κ α) (t : Tree κ α) :
    Checked (Tree κ α) := do
  Checked.require (t.leaves.length = a.ncols) (.dimension a.ncols t.leaves.length)
  codomain.rebuild (a.mulVec t.leaves)

/-- The map that reads as many leaves as a matrix has columns, and as many as there are if the matrix
has no rows. Leaves past the last column do not count. The image gets the given skeleton, or is a
plain array. -/
def frontMap (a : DenseMatrix α) (output : Option (Tree κ α)) (t : Tree κ α) :
    Checked (Tree κ α) := do
  Checked.require (a.nrows = 0 || a.ncols ≤ t.leaves.length)
    (.outOfRange t.leaves.length t.leaves.length)
  Tree.shaped output (a.mulVec t.leaves)

/-- The operator of a matrix, which has a row for each leaf of the codomain and a column for each leaf
of the domain. -/
def ofMatrix? (a : DenseMatrix α) (domain codomain : Tree κ α) (tags : Tags) :
    Except Error (LinearOperator κ α) :=
  if a.nrows ≠ codomain.size then .error (.structureMismatch a.nrows codomain.size)
  else if a.ncols ≠ domain.size then .error (.structureMismatch a.ncols domain.size)
  else .ok ⟨domain, codomain, tags, applyMatrix a codomain, .ok a⟩

/-- The layout of the arguments. -/
def domainLayout (operator : LinearOperator κ α) : Layout := operator.domain.layout

/-- The layout of the images. -/
def codomainLayout (operator : LinearOperator κ α) : Layout := operator.codomain.layout

/-- A solution of a linear system. -/
structure Solution (κ α : Type) where
  /-- The solution; no leaf is a number when the status is a failure. -/
  value : Tree κ α
  status : Status

/-- The tree whose image is the given one, or the one whose image comes closest in the sense of least
squares. -/
def solve [Dense.Kernels α] (operator : LinearOperator κ α) (vector : Tree κ α)
    (strategy : Dense.Strategy) : Outcome Error (Solution κ α) := do
  let a ← operator.matrix
  match Dense.solve strategy a vector.leaves operator.tags with
  | .ok x => return ⟨← operator.domain.rebuild x, .successful⟩
  | .error (.broken fault) => .error (.broken fault)
  | .error (.reported report) =>
      match Status.ofCause? report.cause with
      | some status => return ⟨operator.domain.fill Scalar.nan, status⟩
      | none => Outcome.report (.linearSolver report)

end LinearOperator

end LeastSquares
