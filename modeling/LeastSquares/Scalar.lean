/-!
# Scalars

Every algorithm of this library is written once, over an arbitrary type of scalars. The class below
lists the operations an algorithm may use: the four arithmetic operations, negation, absolute value
and square root, the comparisons, and the special values that mark a result as missing (`nan`) or as
not yet known (`infinity`).

The class holds operations and no laws. Instances at `Float` and `Float32` are what runs; an
instance at an exact number type reads the very same definitions as exact arithmetic.

Comparisons answer `Bool` and are false on a `nan`, so a test and its negation are different tests.
-/

namespace LeastSquares

/-- The operations that the numerical definitions of this library are written in. -/
class Scalar (α : Type) extends Zero α, One α, Add α, Sub α, Mul α, Div α, Neg α where
  /-- The value of the empty sum; a zero that changes nothing when something is added to it. -/
  negZero : α
  /-- The value that stands for no number. -/
  nan : α
  /-- A value above every number. -/
  infinity : α
  /-- The gap between one and the next larger scalar. -/
  epsilon : α
  /-- The smallest scalar above zero that still has full precision. -/
  minNormal : α
  /-- The scalar nearest to a count. -/
  ofNat : Nat → α
  abs : α → α
  sqrt : α → α
  /-- Strictly below; false when either side is not a number. -/
  lt : α → α → Bool
  /-- Below or equal; false when either side is not a number. -/
  le : α → α → Bool
  /-- Whether this is the value that stands for no number. -/
  isNaN : α → Bool
  /-- Whether this is a number other than the infinities. -/
  isFinite : α → Bool

/-- Scalars with the elementary functions that some families of residuals are made of. -/
class Elementary (α : Type) extends Scalar α where
  exp : α → α
  log : α → α
  arctan : α → α

namespace Scalar

variable {α : Type} [Scalar α]

/-- The larger of two scalars; a side that is not a number loses. -/
def max (x y : α) : α := if isNaN x || lt x y then y else x

/-- The smaller of two scalars; a side that is not a number loses. -/
def min (x y : α) : α := if isNaN y || lt x y then x else y

/-- The sum of a list, added up from the left; the empty sum is `negZero`. -/
def sum (xs : List α) : α := xs.foldl (· + ·) negZero

/-- The sum of a list added up from the left onto `0`. -/
def sumFromZero (xs : List α) : α := xs.foldl (· + ·) 0

/-- The products of matching entries, up to the end of the shorter list. -/
def products (xs ys : List α) : List α := List.zipWith (· * ·) xs ys

/-- One half. -/
def half : α := 1 / ofNat 2

/-- The power `x ^ n` as `n` multiplications of `1` by `x`. -/
def pow (x : α) (n : Nat) : α := Nat.repeat (· * x) n 1

@[simp] theorem sum_nil : sum ([] : List α) = negZero := rfl

@[simp] theorem pow_zero (x : α) : pow x 0 = 1 := rfl

theorem pow_succ (x : α) (n : Nat) : pow x (n + 1) = pow x n * x := rfl

@[simp] theorem products_nil_left (ys : List α) : products [] ys = [] := rfl

@[simp] theorem products_cons_cons (x y : α) (xs ys : List α) :
    products (x :: xs) (y :: ys) = (x * y) :: products xs ys := rfl

end Scalar

/-- Double precision. -/
instance : Elementary Float where
  negZero := -0.0
  nan := 0.0 / 0.0
  infinity := 1.0 / 0.0
  epsilon := Float.ofBits 0x3CB0000000000000
  minNormal := Float.ofBits 0x0010000000000000
  ofNat := Float.ofNat
  abs := Float.abs
  sqrt := Float.sqrt
  lt := Float.lt
  le := Float.le
  isNaN := Float.isNaN
  isFinite := Float.isFinite
  exp := Float.exp
  log := Float.log
  arctan := Float.atan

/-- Single precision. -/
instance : Scalar Float32 where
  negZero := -0.0
  nan := 0.0 / 0.0
  infinity := 1.0 / 0.0
  epsilon := Float32.ofBits 0x34000000
  minNormal := Float32.ofBits 0x00800000
  ofNat := Float32.ofNat
  abs := Float32.abs
  sqrt := Float32.sqrt
  lt := Float32.lt
  le := Float32.le
  isNaN := Float32.isNaN
  isFinite := Float32.isFinite

end LeastSquares
