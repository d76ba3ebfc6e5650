import LeastSquares.Residual.Basic

/-!
# Families of residuals

Residuals that are written down by their coefficients: affine maps, polynomials, an exponential decay
fitted to samples, the inverse tangent, the logarithm, and the distance to a circle. Each family has
its directional derivative in closed form. All of them read the point by its leaves.

An affine map multiplies as many entries as its rows and the point have in common. The other families
ask for a leaf by its position where an entry of the residual needs it, and a leaf that is not there
is a fault; leaves that no entry asks for do not matter. A polynomial asks the point for a leaf to
every exponent it lists, and a direction only for the leaves with an exponent above zero.
-/

namespace LeastSquares

/-- A coefficient and one exponent for each leaf. -/
structure Monomial (α : Type) where
  coefficient : α
  exponents : List Nat
deriving Repr

/-- A residual given by its coefficients. -/
inductive Family (α : Type)
  /-- A matrix times the point, less an offset. The derivative multiplies by the same matrix, or by
  another one that is put in its place. -/
  | affine (rows : List (List α)) (offset : List α) (slopes : Option (List (List α)))
  /-- One polynomial for each entry. -/
  | polynomial (rows : List (List (Monomial α)))
  /-- The first leaf times the exponential of the second leaf times a sample time, less the sample
  value. -/
  | exponential (times values : List α)
  /-- The inverse tangents of the leaves less an offset, as many as the offset has entries. -/
  | arctangent (offset : List α)
  /-- The logarithms of the leaves less an offset, as many as the offset has entries. -/
  | logarithm (offset : List α)
  /-- The distances of points from a centre less a radius. -/
  | circle (points : List (α × α))
deriving Repr

namespace Monomial

variable {α : Type} [Scalar α]

/-- A coefficient times the powers of the leaves, from the first leaf on. -/
def times (coefficient : α) (exponents : List Nat) (y : List α) : Checked α :=
  exponents.zipIdx.foldlM
    (fun product e => return product * Scalar.pow (← Checked.entryAt y e.2) e.1) coefficient

/-- The value of a monomial. -/
def value (term : Monomial α) (y : List α) : Checked α :=
  times term.coefficient term.exponents y

/-- The contribution of leaf `k` to the derivative along a direction, where it has the exponent
`e`. -/
def tangentAt (term : Monomial α) (y t : List α) (e k : Nat) : Checked α := do
  let slope ← times (term.coefficient * Scalar.ofNat e) (term.exponents.set k (e - 1)) y
  return slope * (← Checked.entryAt t k)

/-- The contributions of the leaves to the derivative along a direction. -/
def tangents (term : Monomial α) (y t : List α) : Checked (List α) :=
  (term.exponents.zipIdx.filter fun e => 0 < e.1).mapM fun e => term.tangentAt y t e.1 e.2

end Monomial

namespace Family

variable {κ α : Type} [Elementary α]

/-- The inner products of rows with a list. -/
def applyRows (rows : List (List α)) (xs : List α) : List α :=
  rows.map fun row => Scalar.sumFromZero (Scalar.products row xs)

/-- The residual at the leaves of a point. -/
def entries (family : Family α) (y : List α) : Checked (List α) :=
  match family with
  | .affine rows offset _ => .ok (List.zipWith (· - ·) (applyRows rows y) offset)
  | .polynomial rows =>
      rows.mapM fun terms => do
        return Scalar.sumFromZero (← terms.mapM fun term => term.value y)
  | .exponential times values =>
      (times.zip values).mapM fun s => do
        let rate ← Checked.entryAt y 1
        return (← Checked.entryAt y 0) * Elementary.exp (rate * s.1) - s.2
  | .arctangent offset =>
      offset.zipIdx.mapM fun c => return Elementary.arctan (← Checked.entryAt y c.2) - c.1
  | .logarithm offset =>
      offset.zipIdx.mapM fun c => return Elementary.log (← Checked.entryAt y c.2) - c.1
  | .circle points =>
      points.mapM fun p => do
        let u := p.1 - (← Checked.entryAt y 0)
        let v := p.2 - (← Checked.entryAt y 1)
        return Scalar.sqrt (u * u + v * v) - (← Checked.entryAt y 2)

/-- The derivative at the leaves of a point along the leaves of a direction. -/
def slopes (family : Family α) (y t : List α) : Checked (List α) :=
  match family with
  | .affine rows _ none => .ok (applyRows rows t)
  | .affine _ _ (some rows) => .ok (applyRows rows t)
  | .polynomial rows =>
      rows.mapM fun terms => do
        return Scalar.sumFromZero (← terms.mapM fun term => term.tangents y t).flatten
  | .exponential times _ =>
      times.mapM fun time => do
        let height ← Checked.entryAt y 0
        let e := Elementary.exp ((← Checked.entryAt y 1) * time)
        return e * (← Checked.entryAt t 0) + height * time * e * (← Checked.entryAt t 1)
  | .arctangent offset =>
      offset.zipIdx.mapM fun c => do
        let x ← Checked.entryAt y c.2
        return (← Checked.entryAt t c.2) / (1 + x * x)
  | .logarithm offset =>
      offset.zipIdx.mapM fun c => return (← Checked.entryAt t c.2) / (← Checked.entryAt y c.2)
  | .circle points =>
      points.mapM fun p => do
        let u := p.1 - (← Checked.entryAt y 0)
        let v := p.2 - (← Checked.entryAt y 1)
        let distance := Scalar.sqrt (u * u + v * v)
        let along := -u / distance * (← Checked.entryAt t 0)
        let across := v / distance * (← Checked.entryAt t 1)
        return along - across - (← Checked.entryAt t 2)

/-- A family as a residual with the given skeleton of its output. The auxiliary output is the sum of
the entries of the residual. -/
def residual (family : Family α) (output : Option (Tree κ α)) : Residual κ α α where
  value y := do
    let xs ← family.entries y.leaves
    return (← Tree.shaped output xs, Scalar.sumFromZero xs)
  tangent y t := do
    Tree.shaped output (← family.slopes y.leaves t.leaves)

end Family

end LeastSquares
