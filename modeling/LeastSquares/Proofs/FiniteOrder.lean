import Mathlib.Data.Prod.Lex
import Mathlib.Order.Compare
import LeastSquares.Proofs.Exact.Number

/-!
# The order of the finite scalars

What is no number compares as false with everything, so comparisons of scalars do not make a linear
order. Those of finite scalars nearly do: finite scalars have a rank in a linear order, and one is below
another exactly if its rank is. Distinct scalars may share a rank, as the two zeros of floating point
do. In floating point the rank is the sign, then the exponent, then the mantissa; in exact arithmetic it
is the real number itself.
-/

namespace LeastSquares.Scalar

/-- Scalars whose finite values compare like the elements of a linear order. -/
class LawfulOrder (α : Type) [Scalar α] : Prop where
  exists_rank : ∃ (R : Type) (_ : LinearOrder R) (rank : α → R),
    ∀ x y : α, isFinite x = true → isFinite y = true →
      (lt x y = true ↔ rank x < rank y) ∧ (le x y = true ↔ rank x ≤ rank y)

namespace LawfulOrder

variable {α : Type} [Scalar α] [LawfulOrder α] {x y z : α} (hx : isFinite x = true)
  (hy : isFinite y = true)

include hx

theorem le_self : le x x = true := by
  obtain ⟨R, _, rank, h⟩ := exists_rank (α := α)
  exact (h x x hx hx).2.mpr le_rfl

include hy

theorem le_of_lt (hxy : lt x y = true) : le x y = true := by
  obtain ⟨R, _, rank, h⟩ := exists_rank (α := α)
  exact (h x y hx hy).2.mpr ((h x y hx hy).1.mp hxy).le

theorem le_of_not_lt (hyx : ¬lt y x = true) : le x y = true := by
  obtain ⟨R, _, rank, h⟩ := exists_rank (α := α)
  exact (h x y hx hy).2.mpr (not_lt.mp fun hrank => hyx ((h y x hy hx).1.mpr hrank))

theorem lt_of_lt_of_le (hz : isFinite z = true) (hxy : lt x y = true) (hyz : le y z = true) :
    lt x z = true := by
  obtain ⟨R, _, rank, h⟩ := exists_rank (α := α)
  exact (h x z hx hz).1.mpr (((h x y hx hy).1.mp hxy).trans_le ((h y z hy hz).2.mp hyz))

end LawfulOrder

instance : LawfulOrder Exact where
  exists_rank := by
    refine ⟨ℝ, inferInstance, fun x => match x with | .real r => r | _ => 0, fun x y hx hy => ?_⟩
    obtain ⟨r, rfl⟩ := Exact.isFinite_iff.mp hx
    obtain ⟨s, rfl⟩ := Exact.isFinite_iff.mp hy
    exact ⟨decide_eq_true_iff, decide_eq_true_iff⟩

section Unpacked

open Float.Model

/-- The place of a finite float among the finite floats: by sign, exponent and mantissa, where those
of negative floats count downwards. -/
def unpackedRank : UnpackedFloat → ℤ ×ₗ ℤ ×ₗ ℤ
  | .finite .positive mantissa exponent _ => toLex (1, toLex (exponent, mantissa))
  | .finite .negative mantissa exponent _ => toLex (-1, toLex (-exponent, -mantissa))
  | _ => toLex (0, toLex (0, 0))

theorem compare_natCast (m m' : ℕ) : compare (m : ℤ) (m' : ℤ) = compare m m' := by
  simp only [Int.compare_eq_ite_lt, Nat.compare_eq_ite_lt, Int.ofNat_lt]

theorem compare_neg_neg (e e' : ℤ) : compare (-e) (-e') = (compare e e').swap := by
  rw [← Std.OrientedOrd.eq_swap]
  simp only [Int.compare_eq_ite_lt, neg_lt_neg_iff]

/-- Finite floats compare like their ranks. -/
theorem compare_unpacked {x y : UnpackedFloat} (hx : x.isFinite = true) (hy : y.isFinite = true) :
    x.compare y = some (compare (unpackedRank x) (unpackedRank y)) := by
  cases x with
  | notANumber => cases hx
  | infinity s => cases hx
  | zero s =>
      cases y with
      | notANumber => cases hy
      | infinity s' => cases hy
      | zero s' => rfl
      | finite s' m' e' hm' => cases s' <;> rfl
  | finite s m e hm =>
      cases y with
      | notANumber => cases hy
      | infinity s' => cases hy
      | zero s' => cases s <;> rfl
      | finite s' m' e' hm' =>
          match s, s' with
          | .negative, .positive => rfl
          | .positive, .negative => rfl
          | .negative, .negative =>
              have hrank : compare (unpackedRank (.finite .negative m e hm))
                  (unpackedRank (.finite .negative m' e' hm')) =
                  (compare (-e) (-e')).then (compare (-(m : ℤ)) (-(m' : ℤ))) := rfl
              rw [hrank, compare_neg_neg, compare_neg_neg, compare_natCast, ← Ordering.swap_then]
              rfl
          | .positive, .positive =>
              have hrank : compare (unpackedRank (.finite .positive m e hm))
                  (unpackedRank (.finite .positive m' e' hm')) =
                  (compare e e').then (compare (m : ℤ) (m' : ℤ)) := rfl
              rw [hrank, compare_natCast]
              rfl

variable {x y : UnpackedFloat}

theorem lt_unpacked_iff (hx : x.isFinite = true) (hy : y.isFinite = true) :
    x.lt y = true ↔ unpackedRank x < unpackedRank y := by
  rw [UnpackedFloat.lt, compare_unpacked hx hy, beq_iff_eq, Option.some.injEq, compare_lt_iff_lt]

theorem le_unpacked_iff (hx : x.isFinite = true) (hy : y.isFinite = true) :
    x.le y = true ↔ unpackedRank x ≤ unpackedRank y := by
  rw [UnpackedFloat.le, compare_unpacked hx hy, Option.any_some, Ordering.isLE_iff_ne_gt]
  exact compare_le_iff_le

end Unpacked

instance : LawfulOrder Float where
  exists_rank := by
    refine ⟨_, inferInstance, fun x => unpackedRank x.toModel.unpack, fun x y hx hy => ⟨?_, ?_⟩⟩
    · rw [← lt_unpacked_iff hx hy]
      exact decide_eq_true_iff
    · rw [← le_unpacked_iff hx hy]
      exact decide_eq_true_iff

instance : LawfulOrder Float32 where
  exists_rank := by
    refine ⟨_, inferInstance, fun x => unpackedRank x.toModel.unpack, fun x y hx hy => ⟨?_, ?_⟩⟩
    · rw [← lt_unpacked_iff hx hy]
      exact decide_eq_true_iff
    · rw [← le_unpacked_iff hx hy]
      exact decide_eq_true_iff

end LeastSquares.Scalar
