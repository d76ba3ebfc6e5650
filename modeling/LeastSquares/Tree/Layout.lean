import LeastSquares.Fault

/-!
# Layouts

A layout tells which arrays a value is made of, in flattening order: the shape of each array, and
that its entries are double precision numbers. A scalar is an array without dimensions.

Sizes are 64-bit counts. The size of an array is the product of its dimensions, multiplied up from
the left, and it overflows as soon as a prefix product does, even when a later dimension is zero.
-/

namespace LeastSquares

/-- One more than the largest 64-bit count. -/
def countLimit : Nat := Nat.pow 2 64

/-- A count, if it fits 64 bits. -/
def checkCount (n : Nat) : Checked Nat :=
  if n < countLimit then .ok n else .error .sizeOverflow

theorem checkCount_eq_ok {n : Nat} (h : n < countLimit) : checkCount n = .ok n := if_pos h

theorem checkCount_eq_error {n : Nat} (h : ¬n < countLimit) : checkCount n = .error .sizeOverflow :=
  if_neg h

/-- The shape of one array. -/
structure ArrayShape where
  /-- The dimensions; none for a scalar. -/
  dims : List Nat
deriving DecidableEq, Repr

namespace ArrayShape

/-- The name of the type of the entries. -/
def elementType : String := "f64"

/-- The shape of a single number. -/
def scalar : ArrayShape := ⟨[]⟩

/-- The shape of a one-dimensional array. -/
def vector (length : Nat) : ArrayShape := ⟨[length]⟩

/-- How many numbers an array of this shape holds. -/
def size (shape : ArrayShape) : Checked Nat :=
  shape.dims.foldlM (fun product dim => checkCount (product * dim)) 1

/-- The element type followed by the dimensions in brackets. -/
def text (shape : ArrayShape) : String :=
  elementType ++ "[" ++ ", ".intercalate (shape.dims.map toString) ++ "]"

end ArrayShape

/-- The shapes of the arrays of a value, in flattening order. -/
structure Layout where
  arrays : List ArrayShape
deriving DecidableEq, Repr

namespace Layout

/-- The layout of a value that is one array. -/
def single (shape : ArrayShape) : Layout := ⟨[shape]⟩

/-- How many numbers a value of this layout holds. -/
def size (layout : Layout) : Checked Nat :=
  layout.arrays.foldlM (fun total shape => do checkCount (total + (← shape.size))) 0

/-- The texts of the arrays in parentheses. -/
def text (layout : Layout) : String :=
  "(" ++ ", ".intercalate (layout.arrays.map ArrayShape.text) ++ ")"

end Layout

end LeastSquares
