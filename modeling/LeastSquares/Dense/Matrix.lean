import LeastSquares.Fault
import LeastSquares.Scalar

/-!
# Dense matrices

A dense matrix carries its dimensions and a rectangle of entries of exactly those dimensions, so a
ragged matrix cannot be built. Entries are read by `entry`, which is zero outside the rectangle: a
matrix is the upper left corner of an infinite array of zeros. Two matrices are equal when their
dimensions and their entries agree, and `ofFn` is the only way the algorithms build one.
-/

namespace LeastSquares

/-- A rectangle of scalars. -/
structure DenseMatrix (α : Type) where
  nrows : Nat
  ncols : Nat
  rows : Vector (Vector α ncols) nrows
deriving Repr

namespace DenseMatrix

variable {α : Type}

/-- The matrix of the given dimensions with entries given by position. -/
def ofFn (nrows ncols : Nat) (f : Nat → Nat → α) : DenseMatrix α :=
  ⟨nrows, ncols, Vector.ofFn fun i => Vector.ofFn fun j => f i j⟩

@[simp] theorem nrows_ofFn (m n : Nat) (f : Nat → Nat → α) : (ofFn m n f).nrows = m := rfl

@[simp] theorem ncols_ofFn (m n : Nat) (f : Nat → Nat → α) : (ofFn m n f).ncols = n := rfl

section Reading

variable [Zero α]

/-- The entry in row `i` and column `j`; zero outside the matrix. -/
def entry (a : DenseMatrix α) (i j : Nat) : α :=
  if hi : i < a.nrows then
    if hj : j < a.ncols then a.rows[i][j] else 0
  else 0

theorem entry_ofFn (m n : Nat) (f : Nat → Nat → α) {i j : Nat} (hi : i < m) (hj : j < n) :
    (ofFn m n f).entry i j = f i j := by
  simp [entry, ofFn, hi, hj]

theorem entry_of_nrows_le (a : DenseMatrix α) {i : Nat} (j : Nat) (h : a.nrows ≤ i) :
    a.entry i j = 0 := by
  simp [entry, Nat.not_lt.2 h]

theorem entry_of_ncols_le (a : DenseMatrix α) (i : Nat) {j : Nat} (h : a.ncols ≤ j) :
    a.entry i j = 0 := by
  simp [entry, Nat.not_lt.2 h]

/-- Matrices with the same dimensions and the same entries are equal. -/
theorem ext_entry {a b : DenseMatrix α} (hm : a.nrows = b.nrows) (hn : a.ncols = b.ncols)
    (h : ∀ i j, i < a.nrows → j < a.ncols → a.entry i j = b.entry i j) : a = b := by
  obtain ⟨m, n, rows⟩ := a
  obtain ⟨m', n', rows'⟩ := b
  simp only at hm hn
  subst hm hn
  congr 1
  ext i hi j hj
  simpa [entry, hi, hj] using h i j hi hj

/-- Row `i` as a list. -/
def row (a : DenseMatrix α) (i : Nat) : List α := (List.range a.ncols).map fun j => a.entry i j

/-- Column `j` as a list. -/
def column (a : DenseMatrix α) (j : Nat) : List α := (List.range a.nrows).map fun i => a.entry i j

/-- The entries on the diagonal. -/
def diagonal (a : DenseMatrix α) : List α :=
  (List.range (Nat.min a.nrows a.ncols)).map fun i => a.entry i i

/-- The transpose. -/
def transpose (a : DenseMatrix α) : DenseMatrix α := ofFn a.ncols a.nrows fun i j => a.entry j i

/-- The rows of a matrix as lists, from the top. -/
def toRows (a : DenseMatrix α) : List (List α) := (List.range a.nrows).map a.row

/-- The matrix of the given dimensions with the given columns; missing entries are zero. -/
def ofColumns (nrows ncols : Nat) (columns : List (List α)) : DenseMatrix α :=
  let stored := (columns.map List.toArray).toArray
  ofFn nrows ncols fun i j => (stored.getD j #[]).getD i 0

/-- The entries of a column that is too short are filled up with zeros, and so are the columns. -/
theorem entry_ofColumns {m n : Nat} (columns : List (List α)) {i j : Nat} (hi : i < m) (hj : j < n) :
    (ofColumns m n columns).entry i j = (columns.getD j []).getD i 0 := by
  rw [ofColumns, entry_ofFn _ _ _ hi hj]
  by_cases h : j < columns.length
  · simp [h]
  · simp [h]

/-- The matrix of the given dimensions that lists its entries row by row; all of them have to be
there. -/
def ofListing (nrows ncols : Nat) (entries : List α) : Checked (DenseMatrix α) :=
  if nrows * ncols ≤ entries.length then
    let stored := entries.toArray
    .ok (ofFn nrows ncols fun i j => stored.getD (i * ncols + j) 0)
  else .error (.outOfRange entries.length entries.length)

/-- The first `n` entries of every column; no column may be shorter. -/
def columnFronts (a : DenseMatrix α) (n : Nat) : Checked (List (List α)) :=
  if n ≤ a.nrows ∨ a.ncols = 0 then
    .ok ((List.range a.ncols).map fun j => (a.column j).take n)
  else .error (.outOfRange a.nrows a.nrows)

@[simp] theorem row_length (a : DenseMatrix α) (i : Nat) : (a.row i).length = a.ncols := by
  simp [row]

@[simp] theorem column_length (a : DenseMatrix α) (j : Nat) : (a.column j).length = a.nrows := by
  simp [column]

end Reading

section Products

variable [Scalar α]

/-- The product of a matrix and a column; entries of the column past the last column of the matrix do
not count. -/
def mulVec (a : DenseMatrix α) (xs : List α) : List α :=
  a.toRows.map fun row => Scalar.sumFromZero (Scalar.products row xs)

/-- Whether every entry is a finite number. -/
def allFinite (a : DenseMatrix α) : Bool := a.toRows.all fun row => row.all Scalar.isFinite

@[simp] theorem mulVec_length (a : DenseMatrix α) (xs : List α) :
    (a.mulVec xs).length = a.nrows := by
  simp [mulVec, toRows]

end Products

end DenseMatrix

end LeastSquares
