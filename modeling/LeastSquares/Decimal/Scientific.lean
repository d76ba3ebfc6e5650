/-!
# Scientific notation

A finite double is a rational number, and scientific notation with a given number of digits is the
decimal of that many digits closest to it, of two equally close ones the one with the even last
digit. Everything is computed on natural numbers, from the bits of the double.
-/

namespace LeastSquares.Decimal

/-- A fraction of natural numbers with a sign. -/
structure SignedRatio where
  negative : Bool
  num : Nat
  den : Nat
deriving DecidableEq, Repr

/-- The value of a finite double. -/
def ratioOfFloat (x : Float) : SignedRatio :=
  let bits := x.toBits.toNat
  let field := bits / Nat.pow 2 52 % Nat.pow 2 11
  let fraction := bits % Nat.pow 2 52
  let significand := if field = 0 then fraction else Nat.pow 2 52 + fraction
  let shift := Nat.max field 1
  let negative := bits / Nat.pow 2 63 = 1
  if 1075 ≤ shift then ⟨negative, significand * Nat.pow 2 (shift - 1075), 1⟩
  else ⟨negative, significand, Nat.pow 2 (1075 - shift)⟩

/-- A quotient rounded to the nearest natural number, a half to the even neighbour. -/
def roundDiv (num den : Nat) : Nat :=
  let quotient := num / den
  let rest := num % den
  if 2 * rest < den then quotient
  else if den < 2 * rest then quotient + 1
  else if quotient % 2 = 0 then quotient else quotient + 1

/-- How many decimal digits a natural number has; one for zero. -/
def digitCount (n : Nat) : Nat := (Nat.toDigits 10 n).length

/-- Whether a fraction is at least a power of ten. -/
def atLeastPower (num den : Nat) (e : Int) : Bool :=
  match e with
  | .ofNat k => den * Nat.pow 10 k ≤ num
  | .negSucc k => den ≤ num * Nat.pow 10 (k + 1)

/-- The exponent of the largest power of ten that is at most a fraction other than zero. -/
def decimalExponent (num den : Nat) : Int :=
  let guess := (digitCount num : Int) - (digitCount den : Int)
  if atLeastPower num den guess then guess else guess - 1

/-- A fraction times a power of ten, rounded. -/
def scaledRound (num den : Nat) (power : Int) : Nat :=
  match power with
  | .ofNat k => roundDiv (num * Nat.pow 10 k) den
  | .negSucc k => roundDiv num (den * Nat.pow 10 (k + 1))

/-- The digits of a fraction other than zero, as a natural number of the given length, and the
exponent of the first digit. -/
def scientificDigits (digits num den : Nat) : Nat × Int :=
  let e := decimalExponent num den
  let coefficient := scaledRound num den ((digits : Int) - 1 - e)
  if coefficient = Nat.pow 10 digits then (Nat.pow 10 (digits - 1), e + 1) else (coefficient, e)

/-- The text of a coefficient and an exponent: a point after the first digit, and no sign or padding
in a positive exponent. -/
def scientificText (negative : Bool) (coefficient : Nat) (e : Int) : String :=
  let text := Nat.toDigits 10 coefficient
  let sign := if negative then "-" else ""
  match text with
  | [] => sign
  | [d] => sign ++ String.ofList [d] ++ "e" ++ toString e
  | d :: rest => sign ++ String.ofList (d :: '.' :: rest) ++ "e" ++ toString e

/-- A double in scientific notation with the given number of digits. Zeros keep their sign, and the
infinities and the value that is no number have texts of their own. -/
def scientific (digits : Nat) (x : Float) : String :=
  if x.isNaN then "NaN"
  else if x.isInf then (if x < 0 then "-inf" else "inf")
  else
    let ratio := ratioOfFloat x
    if ratio.num = 0 then (if ratio.negative then "-0" else "0")
    else
      let rounded := scientificDigits digits ratio.num ratio.den
      scientificText ratio.negative rounded.1 rounded.2

end LeastSquares.Decimal
