import LeastSquares.Tree.Basic

/-!
# Leafwise arithmetic

Operations on one tree keep its skeleton and act on its leaves in flattening order. Operations on two
trees need as many leaves on either side, and nothing else: the skeleton of the answer is that of the
first tree. A mismatch of leaf counts is a fault.
-/

namespace LeastSquares

variable {κ α : Type} [Scalar α]

/-- The sum of the products of matching entries of two lists of the same length. -/
def dotLists (xs ys : List α) : Checked α :=
  if xs.length = ys.length then .ok (Scalar.sum (Scalar.products xs ys))
  else .error (.leafCount xs.length ys.length)

namespace Tree

/-- The same skeleton with other leaves; of the list as many as fit are used. -/
def withLeaves (t : Tree κ α) (xs : List α) : Tree κ α := (t.unflatten xs).1

/-- Apply a function to every leaf. -/
def map (f : α → α) (t : Tree κ α) : Tree κ α := t.withLeaves (t.leaves.map f)

/-- Apply an effectful function to every leaf, in flattening order. -/
def mapM {m : Type → Type} [Monad m] (f : α → m α) (t : Tree κ α) : m (Tree κ α) := do
  return t.withLeaves (← t.leaves.mapM f)

/-- Combine matching leaves of two trees. -/
def zipWith (f : α → α → α) (t u : Tree κ α) : Checked (Tree κ α) :=
  if t.leaves.length = u.leaves.length then
    t.rebuild (List.zipWith f t.leaves u.leaves)
  else .error (.leafCount t.leaves.length u.leaves.length)

/-- The same skeleton, every leaf `x`. -/
def fill (t : Tree κ α) (x : α) : Tree κ α := t.map fun _ => x

/-- The same skeleton, every leaf zero. -/
def zeros (t : Tree κ α) : Tree κ α := t.fill 0

/-- The same skeleton, one at a flat position and zero elsewhere. -/
def unit (t : Tree κ α) (index : Nat) : Tree κ α :=
  t.withLeaves ((List.range t.leaves.length).map fun i => if i = index then 1 else 0)

/-- Leafwise sum. -/
def add (t u : Tree κ α) : Checked (Tree κ α) := t.zipWith (· + ·) u

/-- Leafwise difference. -/
def sub (t u : Tree κ α) : Checked (Tree κ α) := t.zipWith (· - ·) u

/-- Every leaf multiplied by a factor. -/
def scale (t : Tree κ α) (factor : α) : Tree κ α := t.map fun x => factor * x

/-- The sum of the products of matching leaves. -/
def dot (t u : Tree κ α) : Checked α := dotLists t.leaves u.leaves

end Tree

end LeastSquares
