import LeastSquares.Scalar
import LeastSquares.Tree.Layout

/-!
# Trees

Parameters, residuals and directions are trees: a scalar, an array of scalars, a map of trees or a
tuple of trees. The leaves of a tree are its scalars in flattening order; a map is flattened in the
order of its keys, and keeps the keys beside its parts.

Everything a solver does to a tree goes through two views. `leaves` reads the scalars out, and
`refill` builds a tree of the same skeleton from a list of scalars, taking them in flattening order
and padding with a given value when the list is too short. `Tree.rebuild` is `refill` with the
check that the number of leaves is right.
-/

namespace LeastSquares

/-- The three containers that hold scalars directly. They flatten alike. -/
inductive ArrayKind
  /-- An array of any length. -/
  | growable
  /-- An array whose length is part of its type. -/
  | fixed
  /-- A column of a matrix. -/
  | column
deriving DecidableEq, Repr

/-- A structured value with scalars in `α`. The keys of one map together are a value of `κ`, which no
operation on trees looks into. -/
inductive Tree (κ α : Type) where
  | scalar (x : α)
  | array (kind : ArrayKind) (xs : List α)
  /-- A map: its keys, and its trees in the order of the keys. -/
  | keyed (keys : κ) (parts : List (Tree κ α))
  | tuple (parts : List (Tree κ α))
deriving Repr

namespace Tree

variable {κ α β : Type}

instance [Inhabited α] : Inhabited (Tree κ α) := ⟨.scalar default⟩

mutual

/-- The scalars of a tree, in flattening order. -/
def leaves : Tree κ α → List α
  | .scalar x => [x]
  | .array _ xs => xs
  | .keyed _ parts => leavesOfParts parts
  | .tuple parts => leavesOfParts parts

/-- The scalars of several trees, one tree after another. -/
def leavesOfParts : List (Tree κ α) → List α
  | [] => []
  | t :: rest => t.leaves ++ leavesOfParts rest

end

mutual

/-- How many scalars a tree holds. -/
def size : Tree κ α → Nat
  | .scalar _ => 1
  | .array _ xs => xs.length
  | .keyed _ parts => sizeOfParts parts
  | .tuple parts => sizeOfParts parts

/-- How many scalars several trees hold. -/
def sizeOfParts : List (Tree κ α) → Nat
  | [] => 0
  | t :: rest => t.size + sizeOfParts rest

end

mutual

/-- The shapes of the arrays of a tree, in flattening order. -/
def shapes : Tree κ α → List ArrayShape
  | .scalar _ => [ArrayShape.scalar]
  | .array _ xs => [ArrayShape.vector xs.length]
  | .keyed _ parts => shapesOfParts parts
  | .tuple parts => shapesOfParts parts

/-- The shapes of the arrays of several trees, one tree after another. -/
def shapesOfParts : List (Tree κ α) → List ArrayShape
  | [] => []
  | t :: rest => t.shapes ++ shapesOfParts rest

end

/-- The layout of a tree. -/
def layout (t : Tree κ α) : Layout := ⟨t.shapes⟩

/-- The first `n` entries of a list, padded at the end, and the entries after them. -/
def takePadded (pad : β) : Nat → List β → List β × List β
  | 0, xs => ([], xs)
  | n + 1, xs =>
      let later := takePadded pad n xs.tail
      (xs.headD pad :: later.1, later.2)

mutual

/-- A tree of the same skeleton whose leaves are taken from a list, and the rest of the list. Leaves
that are missing are `pad`. -/
def refill (pad : β) : Tree κ α → List β → Tree κ β × List β
  | .scalar _, xs => (.scalar (xs.headD pad), xs.tail)
  | .array kind ys, xs =>
      let taken := takePadded pad ys.length xs
      (.array kind taken.1, taken.2)
  | .keyed keys parts, xs =>
      let filled := refillParts pad parts xs
      (.keyed keys filled.1, filled.2)
  | .tuple parts, xs =>
      let filled := refillParts pad parts xs
      (.tuple filled.1, filled.2)

/-- `refill` over several trees, from the first to the last. -/
def refillParts (pad : β) : List (Tree κ α) → List β → List (Tree κ β) × List β
  | [], xs => ([], xs)
  | t :: rest, xs =>
      let first := refill pad t xs
      let later := refillParts pad rest first.2
      (first.1 :: later.1, later.2)

end

/-- The nesting, lengths and keys of a tree without its scalars. -/
def skeleton (t : Tree κ α) : Tree κ Unit := (refill () t []).1

section Filling

variable [Scalar α]

/-- A tree of the same skeleton from the front of a list of leaves, and the leaves left over. Missing
leaves are not numbers. -/
def unflatten (t : Tree κ α) (xs : List α) : Tree κ α × List α := t.refill Scalar.nan xs

/-- A tree of the same skeleton with exactly these leaves. -/
def rebuild (t : Tree κ α) (xs : List α) : Checked (Tree κ α) :=
  if xs.length = t.size then .ok (t.unflatten xs).1
  else .error (.leafCount t.size xs.length)

/-- A list of leaves in the skeleton of a tree, or as a plain array where no skeleton is given. -/
def shaped (skeleton : Option (Tree κ α)) (xs : List α) : Checked (Tree κ α) :=
  match skeleton with
  | none => .ok (.array .growable xs)
  | some t => t.rebuild xs

end Filling

end Tree

end LeastSquares
