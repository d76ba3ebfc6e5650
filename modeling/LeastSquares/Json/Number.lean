import LeastSquares.Json.Basic
import LeastSquares.Decimal.Scientific

/-!
# Reading numbers

A count is an unsigned integer of 64 bits: a number written without sign, point and exponent. A
double can be written in any way; the nearest double is taken, a number too large for a double is
refused, and one too small for it is zero. Seventeen digits are enough to write every finite double.
-/

namespace LeastSquares.JsonNumber

/-- The count a number stands for. -/
def toCount? : JsonNumber → Option Nat
  | .integer false n => if n < Nat.pow 2 64 then some n else none
  | _ => none

/-- The double nearest to a coefficient times a power of ten, if there is one. Powers far outside the
range of doubles are told by the number of digits alone. -/
def nearestFloat? (coefficient : Nat) (exponent : Int) : Option Float :=
  let digits := (Decimal.digitCount coefficient : Int)
  if coefficient = 0 then some 0.0
  else if 310 < digits + exponent then none
  else if digits + exponent < -400 then some 0.0
  else
    let x := Float.ofScientific coefficient (exponent < 0) exponent.natAbs
    if x.isFinite then some x else none

/-- A double with the given sign. -/
def signed (negative : Bool) (x : Float) : Float := if negative then -x else x

/-- The double a number stands for. -/
def toFloat? : JsonNumber → Option Float
  | .integer negative n => (nearestFloat? n 0).map (signed negative)
  | .decimal negative coefficient exponent =>
      (nearestFloat? coefficient exponent).map (signed negative)

/-- A finite double in seventeen digits. -/
def ofFloat (x : Float) : JsonNumber :=
  let ratio := Decimal.ratioOfFloat x
  if ratio.num = 0 then .decimal ratio.negative 0 (-1)
  else
    let written := Decimal.scientificDigits 17 ratio.num ratio.den
    .decimal ratio.negative written.1 (written.2 - 16)

end LeastSquares.JsonNumber
