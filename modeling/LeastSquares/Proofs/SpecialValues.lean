import LeastSquares.Proofs.Iteration.FirstTest

/-!
# Infinity in floating point

An infinite objective stands for one that is not known yet, and a run relies on what floating point
makes of it. A difference from infinity is no number or minus infinity, the magnitude of minus infinity
is infinity, and infinity is below nothing. Double and single precision have these laws, which is read
off their representation by sign, exponent and mantissa, and exact arithmetic has them too.
-/

namespace LeastSquares.Scalar

/-- Scalars on which infinity behaves as in floating point, beside what is no number. -/
class LawfulInfinity (α : Type) [Scalar α] : Prop extends LawfulNaN α where
  sub_infinity (x : α) : isNaN (x - infinity) = true ∨ x - infinity = -infinity
  abs_neg_infinity : abs (-infinity : α) = infinity
  infinity_lt (y : α) : lt infinity y = false

instance : LawfulInfinity Exact where
  sub_infinity x := by
    cases x with
    | real x => exact .inr rfl
    | posInf => exact .inl rfl
    | negInf => exact .inr rfl
    | nan => exact .inl rfl
  abs_neg_infinity := rfl
  infinity_lt y := Exact.posInf_lt y

section Unpacked

open Float.Model

variable {x : UnpackedFloat}

theorem eq_notANumber_of_isNaN (h : x.isNaN = true) : x = .notANumber := by
  cases x with
  | notANumber => rfl
  | infinity s => cases h
  | zero s => cases h
  | finite s m e hm => cases h

theorem abs_of_isNaN (h : x.isNaN = true) : x.abs = .notANumber := by
  rw [eq_notANumber_of_isNaN h]
  rfl

theorem lt_of_isNaN (h : x.isNaN = true) (y : UnpackedFloat) : x.lt y = false := by
  rw [eq_notANumber_of_isNaN h]
  rfl

theorem unpacked_sub_infinity (format : Format) (x : UnpackedFloat) :
    x.sub format (.infinity .positive) = .notANumber ∨
      x.sub format (.infinity .positive) = .infinity .negative := by
  cases x with
  | notANumber => exact .inl rfl
  | infinity s =>
      cases s with
      | positive => exact .inl rfl
      | negative => exact .inr rfl
  | zero s => exact .inr rfl
  | finite s m e hm => exact .inr rfl

theorem unpacked_infinity_lt (y : UnpackedFloat) :
    (UnpackedFloat.infinity .positive).lt y = false := by
  cases y with
  | notANumber => rfl
  | infinity s => cases s <;> rfl
  | zero s => rfl
  | finite s m e hm => rfl

end Unpacked

instance : LawfulInfinity Float where
  isNaN_infinity_sub_infinity := rfl
  isNaN_abs {x} h := by
    show (Float.Model.pack x.toModel.unpack.abs).unpack.isNaN = true
    rw [abs_of_isNaN h]
    rfl
  lt_eq_false {x} y h := decide_eq_false (Bool.eq_false_iff.mp (lt_of_isNaN h y.toModel.unpack))
  sub_infinity x := by
    have hsub : x - infinity = Float.ofModel
        (Float.Model.pack (x.toModel.unpack.sub .binary64 (.infinity .positive))) := rfl
    rw [hsub]
    rcases unpacked_sub_infinity .binary64 x.toModel.unpack with h | h
    · rw [h]
      exact .inl rfl
    · rw [h]
      exact .inr rfl
  abs_neg_infinity := rfl
  infinity_lt y := decide_eq_false (Bool.eq_false_iff.mp (unpacked_infinity_lt y.toModel.unpack))

instance : LawfulInfinity Float32 where
  isNaN_infinity_sub_infinity := rfl
  isNaN_abs {x} h := by
    show (Float32.Model.pack x.toModel.unpack.abs).unpack.isNaN = true
    rw [abs_of_isNaN h]
    rfl
  lt_eq_false {x} y h := decide_eq_false (Bool.eq_false_iff.mp (lt_of_isNaN h y.toModel.unpack))
  sub_infinity x := by
    have hsub : x - infinity = Float32.ofModel
        (Float32.Model.pack (x.toModel.unpack.sub .binary32 (.infinity .positive))) := rfl
    rw [hsub]
    rcases unpacked_sub_infinity .binary32 x.toModel.unpack with h | h
    · rw [h]
      exact .inl rfl
    · rw [h]
      exact .inr rfl
  abs_neg_infinity := rfl
  infinity_lt y := decide_eq_false (Bool.eq_false_iff.mp (unpacked_infinity_lt y.toModel.unpack))

end LeastSquares.Scalar
