import LeastSquares.Fault
import LeastSquares.Dense.Report
import LeastSquares.Dense.Kernels

/-!
# Factorization objects

A solver of one of the four kinds holds the factors of the last matrix it factored with success, or
nothing. `factor` checks the shape before the entries and holds the new factors only after its last
check; `solve` works on a matrix of right-hand sides and holds on to the factors. Two kinds keep what
they hold in parts: the orthogonal one has the number of unknowns beside its factors, and the one for
singular values has its three parts apart, with a flag that says whether they come from a matrix.

Whether a solution counts as finite is decided by the first column of right-hand sides alone. The
singular value solve reads and writes a single column.

The other three solves take several right-hand sides. Here each of them is solved by itself
(`mapColumns`). This is an assumption on the library solves behind them, by triangular factors, by
orthogonal factors and by a factor and its transpose: what they do to a column is assumed to depend on
the factors and on that column alone.
-/

namespace LeastSquares.Dense

variable {α : Type} [Scalar α] [Kernels α]

/-- The factors of one kind. -/
inductive Factors (α : Type) : Factorization → Type
  | lu (factors : LuFactors α) : Factors α .lu
  | qr (factors : QrFactors α) : Factors α .qr
  | cholesky (lower : DenseMatrix α) : Factors α .cholesky
  | svd (factors : SvdFactors α) : Factors α .svd

/-- A factored matrix. -/
structure Factored (α : Type) (kind : Factorization) where
  nrows : Nat
  ncols : Nat
  factors : Factors α kind

/-- A matrix with its factors. -/
def Factors.of {kind : Factorization} (factors : Factors α kind) (a : DenseMatrix α) :
    Factored α kind :=
  ⟨a.nrows, a.ncols, factors⟩

/-- The magnitude at or below which a pivot or a singular value counts as zero, relative to the
largest one. -/
def rankTolerance (largest : α) (dim : Nat) : α := largest * Scalar.ofNat dim * Scalar.epsilon

/-- The larger of `0` and the entries of a list; entries that are not numbers are passed over. -/
def largestOf (xs : List α) : α := xs.foldl Scalar.max 0

/-- The smaller of infinity and the entries of a list; entries that are not numbers are passed
over. -/
def smallestOf (xs : List α) : α := xs.foldl Scalar.min Scalar.infinity

/-- Refuse a matrix that is not square. -/
def requireSquare (kind : Factorization) (a : DenseMatrix α) : Except Report Unit :=
  if a.nrows = a.ncols then .ok ()
  else .error ⟨.shapeMismatch, [.needsSquare kind a.nrows a.ncols]⟩

/-- Refuse a matrix with an entry that is not a finite number. -/
def requireFinite (a : DenseMatrix α) : Except Report Unit :=
  if a.allFinite then .ok () else .error ⟨.nonFiniteInput, []⟩

/-- The factors of a matrix. -/
def factor (kind : Factorization) (a : DenseMatrix α) : Except Report (Factored α kind) :=
  match kind with
  | .lu => do
      requireSquare .lu a
      requireFinite a
      let factors := Kernels.lu a
      let cutoff := rankTolerance (largestOf factors.pivots) a.nrows
      if Scalar.le (smallestOf factors.pivots) cutoff then
        .error ⟨.singular, [.pivotBelowCutoff]⟩
      else .ok ((Factors.lu factors).of a)
  | .qr => do
      if a.nrows < a.ncols then .error ⟨.shapeMismatch, [.needsTall a.nrows a.ncols]⟩
      else do
        requireFinite a
        .ok ((Factors.qr (Kernels.qr a)).of a)
  | .cholesky => do
      requireSquare .cholesky a
      requireFinite a
      match Kernels.cholesky a with
      | none => .error ⟨.notPositiveDefinite, [.pivotNotPositive]⟩
      | some lower => .ok ((Factors.cholesky lower).of a)
  | .svd => do
      requireFinite a
      match Kernels.svd a with
      | none => .error ⟨.decomposition, [.noConvergence]⟩
      | some factors => .ok ⟨factors.u.nrows, factors.v.nrows, .svd factors⟩

/-- Refuse a matrix of solutions whose first column has, among its first `n` entries, one that is not
a finite number. A matrix without columns has no first column. -/
def requireSolution (x : DenseMatrix α) (n : Nat) : Outcome Report (DenseMatrix α) :=
  if x.ncols = 0 then .error (.broken (.outOfRange 0 0))
  else if ((x.column 0).take n).all Scalar.isFinite then .ok x
  else .error (.reported ⟨.singular, [.solutionNotFinite]⟩)

/-- The matrix whose columns are the images of the columns of a matrix, with the same dimensions. -/
def mapColumns (f : List α → List α) (b : DenseMatrix α) : DenseMatrix α :=
  .ofColumns b.nrows b.ncols ((List.range b.ncols).map fun j => f (b.column j))

namespace SvdFactors

/-- The singular values that count, inverted, times the shares of the right-hand side in the left
directions; one for each column of the factored matrix. -/
def weights (factors : SvdFactors α) (nrows ncols : Nat) (b : List α) : List α :=
  let cutoff := rankTolerance (largestOf factors.sigma) (Nat.max nrows ncols)
  let shares := factors.u.transpose.mulVec b
  (List.range ncols).map fun i =>
    match factors.sigma[i]? with
    | some s => if Scalar.lt cutoff s then shares.getD i 0 / s else 0
    | none => 0

/-- The least-squares solution of smallest length for one right-hand side, of which the entries past
the rows of the factored matrix do not count. -/
def solve (factors : SvdFactors α) (nrows ncols : Nat) (b : List α) : List α :=
  factors.v.mulVec (factors.weights nrows ncols (b.take nrows))

end SvdFactors

/-- The column after a solve by orthogonal factors: the solution, and below it what no solution can
reach. -/
def QrFactors.column (factors : QrFactors α) (ncols : Nat) (b : List α) : List α :=
  factors.solve b ++ (factors.rotate b).drop ncols

/-- Solve with a factored matrix. The right-hand sides are the columns of a matrix that has as many
rows as the longer side of the factored matrix; the solutions take the place of its first rows. -/
def Factored.solve {kind : Factorization} (a : Factored α kind) (b : DenseMatrix α) :
    Outcome Report (DenseMatrix α) :=
  match a.factors with
  | .lu f =>
      if b.nrows = a.nrows then requireSolution (mapColumns f.solve b) b.nrows
      else .error (.broken (.dimension a.nrows b.nrows))
  | .qr f =>
      if b.nrows = a.nrows then requireSolution (mapColumns (f.column a.ncols) b) a.ncols
      else .error (.broken (.dimension a.nrows b.nrows))
  | .cholesky lower =>
      if b.nrows = a.nrows then requireSolution (mapColumns (choleskySolve lower) b) b.nrows
      else .error (.broken (.dimension a.nrows b.nrows))
  | .svd f =>
      if b.ncols = 0 then .error (.broken (.outOfRange 0 0))
      else if b.nrows < a.nrows then .error (.broken (.outOfRange b.nrows a.nrows))
      else if b.nrows < a.ncols then .error (.broken (.outOfRange b.nrows a.ncols))
      else if b.ncols ≠ 1 then .error (.broken (.dimension 1 b.ncols))
      else requireSolution (mapColumns (f.solve a.nrows a.ncols) b) a.ncols

/-- A solver object of one kind, by what it keeps between its calls. -/
inductive Solver (α : Type) : Factorization → Type
  | lu (factors : Option (Factored α .lu)) : Solver α .lu
  | qr (factors : Option (Factored α .qr)) (ncols : Nat) : Solver α .qr
  | cholesky (factors : Option (Factored α .cholesky)) : Solver α .cholesky
  | svd (u v : DenseMatrix α) (sigma : List α) (factored : Bool) : Solver α .svd

namespace Solver

variable {kind : Factorization}

/-- A solver that has not factored anything. -/
def fresh : {kind : Factorization} → Solver α kind
  | .lu => .lu none
  | .qr => .qr none 0
  | .cholesky => .cholesky none
  | .svd => .svd (.ofFn 0 0 fun _ _ => 0) (.ofFn 0 0 fun _ _ => 0) [] false

/-- A solver with the factors of a matrix in all that it keeps. -/
def ofFactored : {kind : Factorization} → Factored α kind → Solver α kind
  | .lu, a => .lu (some a)
  | .qr, a => .qr (some a) a.ncols
  | .cholesky, a => .cholesky (some a)
  | .svd, ⟨_, _, .svd factors⟩ => .svd factors.u factors.v factors.sigma true

/-- The factored matrix that a solver holds, put together from what it keeps. -/
def held : {kind : Factorization} → Solver α kind → Option (Factored α kind)
  | _, .lu factors => factors
  | _, .qr factors ncols => factors.map fun a => { a with ncols := ncols }
  | _, .cholesky factors => factors
  | _, .svd u v sigma factored =>
      if factored then some ⟨u.nrows, v.nrows, .svd ⟨u, v, sigma⟩⟩ else none

/-- Factor a matrix: the solver afterwards, and the refusal if there was one. -/
def factor (solver : Solver α kind) (a : DenseMatrix α) : Solver α kind × Except Report Unit :=
  match Dense.factor kind a with
  | .ok factored => (ofFactored factored, .ok ())
  | .error report => (solver, .error report)

/-- Solve with the factored matrix that is held. -/
def solve (solver : Solver α kind) (b : DenseMatrix α) : Outcome Report (DenseMatrix α) :=
  match solver.held with
  | some factored => factored.solve b
  | none => Outcome.report ⟨.notFactored, [.notFactored kind]⟩

/-- A request to a solver object. -/
inductive Request (α : Type)
  | factor (a : DenseMatrix α)
  | solve (b : DenseMatrix α)

/-- The answer to a request. -/
inductive Reply (α : Type)
  | factored (answer : Except Report Unit)
  | solved (answer : Outcome Report (DenseMatrix α))

/-- Answer a request: the solver afterwards, and the reply. -/
def handle (solver : Solver α kind) : Request α → Solver α kind × Reply α
  | .factor a =>
      let answer := solver.factor a
      (answer.1, .factored answer.2)
  | .solve b => (solver, .solved (solver.solve b))

/-- Answer requests in turn. -/
def handleAll (solver : Solver α kind) : List (Request α) → Solver α kind × List (Reply α)
  | [] => (solver, [])
  | request :: rest =>
      let first := solver.handle request
      let later := handleAll first.1 rest
      (later.1, first.2 :: later.2)

end Solver

end LeastSquares.Dense
