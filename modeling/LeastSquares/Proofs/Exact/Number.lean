import Mathlib.Analysis.Real.Sqrt
import LeastSquares.Scalar

/-!
# Exact scalars

The scalars of exact arithmetic: the real numbers, with no rounding anywhere, and the three special
values that the algorithms also use. Operations on the special values follow the rules of floating
point; a difference of equal infinities, a product of zero and an infinity, and a quotient of two
zeros are no numbers. Zero has no sign, so a quotient by zero takes its sign from the numerator.

What an algorithm does with real numbers is read off the lemmas of the first section. A result that
is finite can only come from real numbers, which is what the second section says.
-/

namespace LeastSquares

/-- A scalar of exact arithmetic. -/
inductive Exact
  | real (x : ℝ)
  | posInf
  | negInf
  | nan

namespace Exact

noncomputable section

/-- The infinity with the sign of a real number; no number for zero. -/
def infinityOf (x : ℝ) : Exact := if 0 < x then posInf else if x < 0 then negInf else nan

/-- Negation. -/
protected def neg : Exact → Exact
  | real x => real (-x)
  | posInf => negInf
  | negInf => posInf
  | nan => nan

/-- Addition. -/
protected def add : Exact → Exact → Exact
  | real x, real y => real (x + y)
  | posInf, real _ | real _, posInf | posInf, posInf => posInf
  | negInf, real _ | real _, negInf | negInf, negInf => negInf
  | posInf, negInf | negInf, posInf | nan, _ | _, nan => nan

/-- Multiplication. -/
protected def mul : Exact → Exact → Exact
  | real x, real y => real (x * y)
  | real x, posInf | posInf, real x => infinityOf x
  | real x, negInf | negInf, real x => infinityOf (-x)
  | posInf, posInf | negInf, negInf => posInf
  | posInf, negInf | negInf, posInf => negInf
  | nan, _ | _, nan => nan

/-- Division. -/
protected def div : Exact → Exact → Exact
  | real x, real y => if y = 0 then infinityOf x else real (x / y)
  | real _, posInf | real _, negInf => real 0
  | posInf, real y => if y < 0 then negInf else posInf
  | negInf, real y => if y < 0 then posInf else negInf
  | posInf, posInf | posInf, negInf | negInf, posInf | negInf, negInf | nan, _ | _, nan => nan

/-- Magnitude. -/
protected def abs : Exact → Exact
  | real x => real |x|
  | posInf | negInf => posInf
  | nan => nan

/-- Square root. -/
protected def sqrt : Exact → Exact
  | real x => if x < 0 then nan else real (Real.sqrt x)
  | posInf => posInf
  | negInf | nan => nan

/-- Strictly below. -/
protected def lt : Exact → Exact → Bool
  | real x, real y => decide (x < y)
  | real _, posInf | negInf, real _ | negInf, posInf => true
  | _, _ => false

/-- Below or equal. -/
protected def le : Exact → Exact → Bool
  | real x, real y => decide (x ≤ y)
  | real _, posInf | negInf, real _ | negInf, posInf | posInf, posInf | negInf, negInf => true
  | _, _ => false

/-- Exact arithmetic, with the machine constants of double precision. -/
instance : Scalar Exact where
  zero := real 0
  one := real 1
  add := Exact.add
  sub x y := Exact.add x (Exact.neg y)
  mul := Exact.mul
  div := Exact.div
  neg := Exact.neg
  negZero := real 0
  nan := nan
  infinity := posInf
  epsilon := real (2 ^ (-52 : ℤ))
  minNormal := real (2 ^ (-1022 : ℤ))
  ofNat n := real n
  abs := Exact.abs
  sqrt := Exact.sqrt
  lt := Exact.lt
  le := Exact.le
  isNaN
    | nan => true
    | _ => false
  isFinite
    | real _ => true
    | _ => false

section Real

variable (x y : ℝ)

@[simp] theorem zero_eq : (0 : Exact) = real 0 := rfl

@[simp] theorem one_eq : (1 : Exact) = real 1 := rfl

@[simp] theorem negZero_eq : (Scalar.negZero : Exact) = real 0 := rfl

@[simp] theorem ofNat_eq (n : Nat) : (Scalar.ofNat n : Exact) = real n := rfl

@[simp] theorem real_add : real x + real y = real (x + y) := rfl

@[simp] theorem real_mul : real x * real y = real (x * y) := rfl

@[simp] theorem real_neg : -real x = real (-x) := rfl

@[simp] theorem real_sub : real x - real y = real (x - y) :=
  congrArg real (sub_eq_add_neg x y).symm

theorem real_div {y : ℝ} (h : y ≠ 0) : real x / real y = real (x / y) := if_neg h

theorem half_eq : (Scalar.half : Exact) = real (1 / 2) := by
  rw [Scalar.half, one_eq, ofNat_eq, Nat.cast_ofNat, real_div 1 two_ne_zero]

theorem tenth_eq : (1 / Scalar.ofNat 10 : Exact) = real (1 / 10) := by
  rw [one_eq, ofNat_eq, Nat.cast_ofNat, real_div 1 (by norm_num)]

@[simp] theorem abs_real : Scalar.abs (real x) = real |x| := rfl

theorem sqrt_real {x : ℝ} (h : 0 ≤ x) : Scalar.sqrt (real x) = real (Real.sqrt x) :=
  if_neg (not_lt.mpr h)

@[simp] theorem lt_real : Scalar.lt (real x) (real y) = decide (x < y) := rfl

@[simp] theorem le_real : Scalar.le (real x) (real y) = decide (x ≤ y) := rfl

@[simp] theorem posInf_lt (a : Exact) : Scalar.lt posInf a = false := by cases a <;> rfl

@[simp] theorem nan_lt (a : Exact) : Scalar.lt nan a = false := by cases a <;> rfl

@[simp] theorem nan_mul (a : Exact) : nan * a = nan := by cases a <;> rfl

@[simp] theorem isNaN_real : Scalar.isNaN (real x) = false := rfl

@[simp] theorem isFinite_real : Scalar.isFinite (real x) = true := rfl

@[simp] theorem isFinite_nan : Scalar.isFinite nan = false := rfl

/-- The smaller of two real numbers is one of them. -/
theorem min_real : Scalar.min (real x) (real y) = real (min x y) := by
  unfold Scalar.min
  rw [isNaN_real, lt_real, Bool.false_or]
  rcases lt_or_ge x y with h | h
  · rw [min_eq_left h.le, if_pos (decide_eq_true h)]
  · rw [min_eq_right h, if_neg (by simpa using h)]

/-- The larger of two real numbers is one of them. -/
theorem max_real : Scalar.max (real x) (real y) = real (max x y) := by
  unfold Scalar.max
  rw [isNaN_real, lt_real, Bool.false_or]
  rcases lt_or_ge x y with h | h
  · rw [max_eq_right h.le, if_pos (decide_eq_true h)]
  · rw [max_eq_left h, if_neg (by simpa using h)]

end Real

section Finite

theorem isFinite_iff {a : Exact} : Scalar.isFinite a = true ↔ ∃ x, a = real x := by
  cases a with
  | real x => exact ⟨fun _ => ⟨x, rfl⟩, fun _ => rfl⟩
  | posInf => exact ⟨fun h => (Bool.false_ne_true h).elim, fun ⟨_, h⟩ => nomatch h⟩
  | negInf => exact ⟨fun h => (Bool.false_ne_true h).elim, fun ⟨_, h⟩ => nomatch h⟩
  | nan => exact ⟨fun h => (Bool.false_ne_true h).elim, fun ⟨_, h⟩ => nomatch h⟩

/-- A sum is real only if both sides are. -/
theorem add_eq_real {a b : Exact} {z : ℝ} (h : a + b = real z) :
    (∃ x, a = real x) ∧ ∃ y, b = real y := by
  change Exact.add a b = real z at h
  cases a <;> cases b <;> simp [Exact.add] at h ⊢

/-- A square is real only if its root is. -/
theorem mul_self_eq_real {a : Exact} {z : ℝ} (h : a * a = real z) : ∃ x, a = real x := by
  change Exact.mul a a = real z at h
  cases a <;> simp [Exact.mul] at h ⊢

/-- A product is real only if both sides are. -/
theorem mul_eq_real {a b : Exact} {z : ℝ} (h : a * b = real z) :
    (∃ x, a = real x) ∧ ∃ y, b = real y := by
  change Exact.mul a b = real z at h
  have hinfinity (x : ℝ) : infinityOf x ≠ real z := by
    unfold infinityOf
    split_ifs <;> exact fun h => nomatch h
  cases a <;> cases b <;> first | exact ⟨⟨_, rfl⟩, _, rfl⟩ | exact absurd h (hinfinity _) | cases h

/-- A quotient by a real number is real only if that number is not zero. -/
theorem div_real_eq_real {d : Exact} {b r : ℝ} (h : d / real b = real r) :
    b ≠ 0 ∧ ∃ x, d = real x ∧ r = x / b := by
  change Exact.div d (real b) = real r at h
  cases d with
  | real x =>
      by_cases hb : b = 0
      · rw [Exact.div, if_pos hb, infinityOf] at h
        split_ifs at h
      · rw [Exact.div, if_neg hb] at h
        exact ⟨hb, x, rfl, (real.inj h).symm⟩
  | posInf =>
      rw [Exact.div] at h
      split_ifs at h
  | negInf =>
      rw [Exact.div] at h
      split_ifs at h
  | nan => cases h

end Finite

section Order

/-- Equal, or below or equal as numbers. What is no number compares with itself alone. -/
instance : LE Exact := ⟨fun a b => a = b ∨ Scalar.le a b = true⟩

protected theorem le_refl (a : Exact) : a ≤ a := .inl rfl

theorem real_le_real {x y : ℝ} (h : x ≤ y) : real x ≤ real y := .inr (decide_eq_true h)

/-- Every number is at most infinity. -/
theorem le_posInf {a : Exact} (h : Scalar.isNaN a = false) : a ≤ posInf := by
  cases a with
  | real x => exact .inr rfl
  | posInf => exact .inl rfl
  | negInf => exact .inr rfl
  | nan => exact (Bool.false_ne_true h.symm).elim

end Order

end

end Exact

end LeastSquares
