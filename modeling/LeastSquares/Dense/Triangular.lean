import LeastSquares.Dense.Matrix

/-!
# Triangular systems

Substitution in a lower triangular matrix, from the first unknown to the last. The rows are halved
until at most four are left together. Inside such a block every row is divided by its diagonal entry
first, and the unknowns before it are taken with the divided coefficients; when the upper part of a
larger block is known, its shares are taken from the right-hand side of the lower part before that
part is solved. Neither way loses a solution that both the coefficients and the right-hand side are
far too large to multiply.

An upper triangular system is a lower triangular one with rows and columns counted from the end. Only
the entries on and below, respectively on and above, the diagonal are read.
-/

namespace LeastSquares.Dense

variable {α : Type} [Scalar α]

/-- The unknown of row `i` of a block that begins with row `start`, from the unknowns of the block
before it and the right-hand side of the block. -/
def blockEntry (l : DenseMatrix α) (start : Nat) (b xs : List α) (i : Nat) : α :=
  let inverse := 1 / l.entry (start + i) (start + i)
  let coefficients := ((l.row (start + i)).drop start).map fun x => -(x * inverse)
  (Scalar.products coefficients xs).foldl (· + ·) (b.getD i 0 * inverse)

/-- The first `n` unknowns of the block that begins with row `start`. -/
def blockSubstitution (l : DenseMatrix α) (start : Nat) (b : List α) : Nat → List α
  | 0 => []
  | n + 1 =>
      let xs := blockSubstitution l start b n
      xs ++ [blockEntry l start b xs n]

/-- How many of `n` rows form the upper part: about half of them, so that the lower part is a multiple
of four, eight or sixteen as soon as it is large enough. -/
def upperPart (n : Nat) : Nat :=
  if 32 ≤ n then n - (n / 2 + 15) / 16 * 16
  else if 16 ≤ n then n - (n / 2 + 7) / 8 * 8
  else if 8 ≤ n then n - (n / 2 + 3) / 4 * 4
  else n - n / 2

theorem upperPart_le (n : Nat) : upperPart n ≤ n := by
  unfold upperPart
  split
  · exact Nat.sub_le ..
  · split
    · exact Nat.sub_le ..
    · split <;> exact Nat.sub_le ..

/-- The right-hand sides of `count` rows from row `row` on, less the shares of the unknowns `xs` whose
columns begin at `start`. -/
def withoutShares (l : DenseMatrix α) (start row count : Nat) (xs b : List α) : List α :=
  (List.range count).map fun i =>
    (Scalar.products ((l.row (row + i)).drop start) xs).foldl (· - ·) (b.getD i 0)

/-- The unknowns of `n` rows from row `start` on, from their right-hand sides, which hold no shares of
earlier unknowns any more. The rows are halved at most `halvings` times, one inside the other, and what
is then left together is one block. -/
def substitutionFrom (l : DenseMatrix α) : (halvings n start : Nat) → List α → List α
  | 0, n, start, b => blockSubstitution l start b n
  | halvings + 1, n, start, b =>
      if n ≤ 4 then blockSubstitution l start b n
      else
        let m := upperPart n
        let upper := substitutionFrom l halvings m start (b.take m)
        let rest := withoutShares l start (start + m) (n - m) upper (b.drop m)
        upper ++ substitutionFrom l halvings (n - m) (start + m) rest

/-- The unknowns of the lower triangular system `l x = b` in `n` unknowns. A block shrinks with every
halving, so `n` of them are enough. -/
def forwardSubstitution (l : DenseMatrix α) (b : List α) (n : Nat) : List α :=
  substitutionFrom l n n 0 b

/-- The first `n` rows and columns of a matrix, both counted from the end. -/
def reversed (u : DenseMatrix α) (n : Nat) : DenseMatrix α :=
  .ofFn n n fun i j => u.entry (n - 1 - i) (n - 1 - j)

/-- The unknowns of the upper triangular system `u x = b` in `n` unknowns. -/
def backwardSubstitution (u : DenseMatrix α) (n : Nat) (b : List α) : List α :=
  (forwardSubstitution (reversed u n) (b.take n).reverse n).reverse

theorem blockSubstitution_length (l : DenseMatrix α) (start : Nat) (b : List α) (n : Nat) :
    (blockSubstitution l start b n).length = n := by
  induction n with
  | zero => rfl
  | succ n ih => simp [blockSubstitution, ih]

theorem substitutionFrom_length (l : DenseMatrix α) (halvings n start : Nat) (b : List α) :
    (substitutionFrom l halvings n start b).length = n := by
  induction halvings generalizing n start b with
  | zero => exact blockSubstitution_length l start b n
  | succ halvings ih =>
      rw [substitutionFrom]
      split
      · exact blockSubstitution_length l start b n
      · rw [List.length_append, ih, ih]
        exact Nat.add_sub_cancel' (upperPart_le n)

theorem forwardSubstitution_length (l : DenseMatrix α) (b : List α) (n : Nat) :
    (forwardSubstitution l b n).length = n :=
  substitutionFrom_length l n n 0 b

theorem backwardSubstitution_length (u : DenseMatrix α) (n : Nat) (b : List α) :
    (backwardSubstitution u n b).length = n := by
  simp [backwardSubstitution, forwardSubstitution_length]

end LeastSquares.Dense
