import LeastSquares.Proofs.Exact.Number
import LeastSquares.Proofs.Floating.Extended

/-!
# Scaling step sizes

Backtracking multiplies a step size by a factor strictly between zero and one, or divides it by this
factor. Step sizes are at least zero, and infinity is one of them. Both operations keep them so, and a
product is never above what it was made of. Exact arithmetic has these laws. Double and single precision
have them too, as has every binary format, because rounding does not carry a result past a number that
the format represents: a product may be rounded to the step size itself or to zero, and a quotient to
infinity.
-/

namespace LeastSquares

/-! ### Lawful scaling -/

/-- Scalars on which step sizes are scaled as in floating point. Rounding may make a product or a
quotient equal to what it was made of, but not carry it to the wrong side. -/
class Scalar.LawfulScaling (α : Type) [Scalar α] : Prop where
  zero_le_one : le (0 : α) 1 = true
  le_of_lt {x y : α} : lt x y = true → le x y = true
  le_trans {x y z : α} : le x y = true → le y z = true → le x z = true
  le_self {x : α} : le 0 x = true → le x x = true
  isNaN_eq_false {x : α} : le 0 x = true → isNaN x = false
  mul_nonneg {x factor : α} : le 0 x = true → lt 0 factor = true → lt factor 1 = true →
    le 0 (x * factor) = true
  mul_le {x factor : α} : le 0 x = true → lt 0 factor = true → lt factor 1 = true →
    le (x * factor) x = true
  div_nonneg {x factor : α} : le 0 x = true → lt 0 factor = true → lt factor 1 = true →
    le 0 (x / factor) = true

open Scalar

/-! ### Exact arithmetic -/

/-- What is at least zero in exact arithmetic is a real number or infinity. -/
theorem Exact.zero_le_cases {x : Exact} (h : le 0 x = true) :
    (∃ r : ℝ, 0 ≤ r ∧ x = .real r) ∨ x = .posInf := by
  cases x with
  | real r => exact .inl ⟨r, of_decide_eq_true h, rfl⟩
  | posInf => exact .inr rfl
  | negInf => cases h
  | nan => cases h

/-- A factor strictly between zero and one is a real number. -/
theorem Exact.factor_cases {factor : Exact} (hpos : lt 0 factor = true) (hone : lt factor 1 = true) :
    ∃ d : ℝ, 0 < d ∧ d < 1 ∧ factor = .real d := by
  cases factor with
  | real d => exact ⟨d, of_decide_eq_true hpos, of_decide_eq_true hone, rfl⟩
  | posInf => cases hone
  | negInf => cases hpos
  | nan => cases hpos

theorem Exact.posInf_mul_real {d : ℝ} (hd : 0 < d) : posInf * real d = posInf := if_pos hd

open Exact in
instance : LawfulScaling Exact where
  zero_le_one := decide_eq_true zero_le_one
  le_of_lt {x y} h := by
    cases x <;> cases y <;> first | exact decide_eq_true (of_decide_eq_true h).le | rfl | cases h
  le_trans {x y z} hxy hyz := by
    cases x <;> cases y <;> cases z <;>
      first
        | exact decide_eq_true ((of_decide_eq_true hxy).trans (of_decide_eq_true hyz))
        | rfl
        | exact (Bool.false_ne_true hxy).elim
        | exact (Bool.false_ne_true hyz).elim
  le_self {x} h := by
    rcases zero_le_cases h with ⟨r, -, rfl⟩ | rfl
    · exact decide_eq_true le_rfl
    · rfl
  isNaN_eq_false {x} h := by
    rcases zero_le_cases h with ⟨r, -, rfl⟩ | rfl <;> rfl
  mul_nonneg {x factor} h hpos hone := by
    obtain ⟨d, hd, -, rfl⟩ := factor_cases hpos hone
    rcases zero_le_cases h with ⟨r, hr, rfl⟩ | rfl
    · exact decide_eq_true (mul_nonneg hr hd.le)
    · rw [posInf_mul_real hd]
      rfl
  mul_le {x factor} h hpos hone := by
    obtain ⟨d, hd, hd', rfl⟩ := factor_cases hpos hone
    rcases zero_le_cases h with ⟨r, hr, rfl⟩ | rfl
    · exact decide_eq_true (mul_le_of_le_one_right hr hd'.le)
    · rw [posInf_mul_real hd]
      rfl
  div_nonneg {x factor} h hpos hone := by
    obtain ⟨d, hd, -, rfl⟩ := factor_cases hpos hone
    rcases zero_le_cases h with ⟨r, hr, rfl⟩ | rfl
    · rw [real_div r hd.ne']
      exact decide_eq_true (div_nonneg hr hd.le)
    · have hdiv : posInf / real d = posInf := if_neg (not_lt.mpr hd.le)
      rw [hdiv]
      rfl

/-! ### Binary formats -/

namespace Scalar.Binary

open Float.Model (UnpackedFloat)

variable {α : Type} [Scalar α] [Binary α] {x y factor : α}

/-- What compares with another scalar is a number. -/
theorem isNaN_of_compare {u v : UnpackedFloat} (h : u.compare v ≠ none) :
    u.isNaN = false ∧ v.isNaN = false := by
  cases u with
  | notANumber => exact absurd rfl h
  | _ => cases v with
    | notANumber => exact absurd rfl h
    | _ => exact ⟨rfl, rfl⟩

theorem isNaN_of_le (h : le x y = true) : Scalar.isNaN x = false ∧ Scalar.isNaN y = false := by
  rw [isNaN_eq, isNaN_eq]
  refine isNaN_of_compare fun hnone => ?_
  rw [le_iff, UnpackedFloat.le, hnone] at h
  cases h

theorem isNaN_of_lt (h : lt x y = true) : Scalar.isNaN x = false ∧ Scalar.isNaN y = false := by
  rw [isNaN_eq, isNaN_eq]
  refine isNaN_of_compare fun hnone => ?_
  rw [lt_iff, UnpackedFloat.lt, hnone] at h
  cases h

theorem toEReal_zero : toEReal (0 : α) = 0 := by
  rw [toEReal_of_finite isFinite_zero, toReal_zero, EReal.coe_zero]

/-- The magnitudes are what is at least zero. -/
theorem zero_le_iff_isMagnitude : le 0 x = true ↔ IsMagnitude x := by
  constructor
  · intro h
    obtain ⟨hzero, hnumber⟩ := isNaN_of_le h
    rw [le_iff_toEReal hzero hnumber, toEReal_zero] at h
    rcases finite_or_infinity hnumber with hfinite | ⟨s, hs⟩
    · rw [toEReal_of_finite hfinite, EReal.coe_nonneg] at h
      exact .inl ⟨hfinite, h⟩
    · cases s with
      | positive => exact .inr hs
      | negative =>
          rw [toEReal_of_negInfinity hs] at h
          exact absurd h (not_le.mpr EReal.bot_lt_zero)
  · intro h
    rw [le_iff_toEReal (isNaN_eq_false isFinite_zero) h.isNaN_eq_false, toEReal_zero]
    exact h.toEReal_nonneg

/-- A factor strictly between zero and one stands for such a real number. -/
theorem factor_finite (hpos : lt 0 factor = true) (hone : lt factor 1 = true) :
    Scalar.isFinite factor = true ∧ 0 < toReal factor ∧ toReal factor < 1 := by
  obtain ⟨hnumber, hnumber'⟩ := isNaN_of_lt hone
  have hbelow := (lt_iff_toEReal hnumber hnumber').mp hone
  have habove : IsMagnitude factor := by
    obtain ⟨hzero, -⟩ := isNaN_of_lt hpos
    rw [← zero_le_iff_isMagnitude, le_iff_toEReal hzero hnumber]
    exact ((lt_iff_toEReal hzero hnumber).mp hpos).le
  obtain ⟨hfinite, -⟩ := habove.finite_of_le isFinite_one hbelow.le
  refine ⟨hfinite, (zero_lt_iff_toReal hfinite).mp hpos, ?_⟩
  rw [← toReal_one (α := α)]
  exact (lt_iff_toReal hfinite isFinite_one).mp hone

theorem IsMagnitude.mul (hx : IsMagnitude x) (hfactor : Scalar.isFinite factor = true)
    (hpos : 0 < toReal factor) : IsMagnitude (x * factor) := by
  rcases hx with ⟨hfinite, hnonneg⟩ | hinfinite
  · exact (mul_isRounded hfinite hfactor).cases_of_nonneg (mul_nonneg hnonneg hpos.le)
  · exact .inr (unpacked_mul_of_infinity hinfinite hpos)

/-- A factor below one leaves a product that is not above the magnitude it was made of. -/
theorem IsMagnitude.toEReal_mul_le (hx : IsMagnitude x) (hfactor : Scalar.isFinite factor = true)
    (hpos : 0 < toReal factor) (hone : toReal factor < 1) : toEReal (x * factor) ≤ toEReal x := by
  rcases hx with ⟨hfinite, hnonneg⟩ | hinfinite
  · have hrounded := mul_isRounded hfinite hfactor
    have hle : toReal x * toReal factor ≤ toReal x := mul_le_of_le_one_right hnonneg hone.le
    have hproduct : Scalar.isFinite (x * factor) = true := by
      refine hrounded.isFinite_of_abs_le (x := x) ?_
      rwa [abs_of_nonneg (mul_nonneg hnonneg hpos.le), abs_of_nonneg hnonneg]
    rw [toEReal_of_finite hproduct, toEReal_of_finite hfinite, EReal.coe_le_coe_iff]
    exact hrounded.le (representable_toReal x) hproduct hle
  · rw [toEReal_of_posInfinity hinfinite]
    exact le_top

theorem IsMagnitude.div (hx : IsMagnitude x) (hfactor : Scalar.isFinite factor = true)
    (hpos : 0 < toReal factor) : IsMagnitude (x / factor) := by
  rcases hx with ⟨hfinite, hnonneg⟩ | hinfinite
  · exact (div_isRounded hfinite hfactor hpos.ne').cases_of_nonneg (div_nonneg hnonneg hpos.le)
  · exact .inr (unpacked_div_of_infinity hinfinite hpos)

instance : LawfulScaling α where
  zero_le_one := by
    rw [le_iff_toReal isFinite_zero isFinite_one, toReal_zero, toReal_one]
    exact zero_le_one
  le_of_lt {x y} h := by
    obtain ⟨hx, hy⟩ := isNaN_of_lt h
    exact (le_iff_toEReal hx hy).mpr ((lt_iff_toEReal hx hy).mp h).le
  le_trans {x y z} hxy hyz := by
    obtain ⟨hx, hy⟩ := isNaN_of_le hxy
    obtain ⟨-, hz⟩ := isNaN_of_le hyz
    rw [le_iff_toEReal hx hy] at hxy
    rw [le_iff_toEReal hy hz] at hyz
    exact (le_iff_toEReal hx hz).mpr (hxy.trans hyz)
  le_self {x} h := by
    obtain ⟨-, hx⟩ := isNaN_of_le h
    exact (le_iff_toEReal hx hx).mpr le_rfl
  isNaN_eq_false h := (isNaN_of_le h).2
  mul_nonneg {x factor} h hpos hone := by
    obtain ⟨hfactor, hpos, -⟩ := factor_finite hpos hone
    exact zero_le_iff_isMagnitude.mpr ((zero_le_iff_isMagnitude.mp h).mul hfactor hpos)
  mul_le {x factor} h hpos hone := by
    obtain ⟨hfactor, hpos, hone⟩ := factor_finite hpos hone
    have hx := zero_le_iff_isMagnitude.mp h
    rw [le_iff_toEReal (hx.mul hfactor hpos).isNaN_eq_false hx.isNaN_eq_false]
    exact hx.toEReal_mul_le hfactor hpos hone
  div_nonneg {x factor} h hpos hone := by
    obtain ⟨hfactor, hpos, -⟩ := factor_finite hpos hone
    exact zero_le_iff_isMagnitude.mpr ((zero_le_iff_isMagnitude.mp h).div hfactor hpos)

end Scalar.Binary

end LeastSquares
