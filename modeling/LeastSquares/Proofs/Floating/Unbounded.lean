import LeastSquares.Proofs.Floating.Norms

/-!
# Norms of leaves that are not finite

Infinity and what is no number have in common that they are below nothing. A leaf that is not finite
makes every norm of this library one of the two, whatever the other leaves are (`unbounded_ofLeaves`).

Both measures that the norms rest on keep what is no number, and both are at least the magnitude of an
infinite leaf, or at least its square. The root does not make up for that, nor does the division by the
root of a count.
-/

namespace LeastSquares

open Float.Model (UnpackedFloat)

namespace Scalar.Binary

variable {α : Type} [Scalar α] [Binary α] {x y : α} {xs : List α}

section Kinds

/-- Infinity, or no number. -/
def Unbounded (x : α) : Prop := unpacked x = .infinity .positive ∨ unpacked x = .notANumber

theorem Unbounded.lt_eq_false (h : Unbounded x) (y : α) : Scalar.lt x y = false := by
  refine Bool.eq_false_iff.mpr fun hlt => ?_
  rw [lt_iff] at hlt
  rcases h with h | h
  · rw [h, unpacked_infinity_lt] at hlt
    cases hlt
  · rw [h, lt_of_isNaN rfl] at hlt
    cases hlt

/-- A finite scalar is below infinity. -/
theorem lt_infinity (hx : Scalar.isFinite x = true) (hy : unpacked y = .infinity .positive) :
    Scalar.lt x y = true := by
  rw [lt_iff, hy]
  rw [isFinite_eq] at hx
  generalize unpacked x = u at hx ⊢
  cases u with
  | finite s m e hm => cases s <;> rfl
  | zero s => rfl
  | infinity s => cases hx
  | notANumber => cases hx

/-- What is above zero is a finite number or infinity. -/
theorem zero_lt_iff_pos_or_infinity : Scalar.lt 0 x = true ↔
    Scalar.isFinite x = true ∧ 0 < toReal x ∨ unpacked x = .infinity .positive := by
  constructor
  · intro hlt
    by_cases hx : Scalar.isFinite x = true
    · exact .inl ⟨hx, (zero_lt_iff_toReal hx).mp hlt⟩
    · rw [lt_iff, zero_eq] at hlt
      rcases unpacked_of_not_finite hx with ⟨s, hs⟩ | hnan
      · rw [hs] at hlt
        cases s with
        | positive => exact .inr hs
        | negative => cases hlt
      · rw [hnan] at hlt
        cases hlt
  · rintro (⟨hx, hpos⟩ | hinfinite)
    · exact (zero_lt_iff_toReal hx).mpr hpos
    · exact lt_infinity isFinite_zero hinfinite

end Kinds

section Squares

theorem unbounded_sumSquaresOf (h : ∃ x ∈ xs, ¬Scalar.isFinite x = true) :
    Unbounded (sumSquaresOf xs) := by
  obtain ⟨x, hx, hinfinite⟩ := h
  by_cases hnan : ∃ x ∈ xs, Scalar.isNaN x = true
  · exact .inr (unpacked_of_isNaN (isNaN_sumSquaresOf_iff.mpr hnan))
  · exact .inl (unpacked_sumSquaresOf_of_infinite (forall_isNaN_eq_false hnan) hx
      (Bool.eq_false_iff.mpr hinfinite))

theorem Unbounded.sqrt (h : Unbounded x) : Unbounded (Scalar.sqrt x) := by
  rcases h with h | h
  · exact .inl (by rw [sqrt_eq, h]; exact unpacked_infinity _)
  · exact .inr (by rw [sqrt_eq, h]; exact unpacked_notANumber)

theorem unbounded_abs (hx : ¬Scalar.isFinite x = true) : Unbounded (Scalar.abs x) := by
  rw [Unbounded, unpacked_abs]
  rcases unpacked_of_not_finite hx with ⟨s, hs⟩ | hnan
  · exact .inl (by rw [hs]; rfl)
  · exact .inr (by rw [hnan]; rfl)

/-- A divisor above zero does not make up for it. -/
theorem Unbounded.div (h : Unbounded x) (hy : Scalar.lt 0 y = true) : Unbounded (x / y) := by
  rcases h with h | h
  · rcases zero_lt_iff_pos_or_infinity.mp hy with ⟨-, hpos⟩ | hinfinite
    · exact .inl (unpacked_div_of_infinity h hpos)
    · -- Infinity divided by infinity.
      exact .inr (by rw [div_eq, h, hinfinite]; exact unpacked_notANumber)
  · exact .inr (unpacked_div_of_nan (.inl h))

/-- The root of a count is above zero, be it infinity. -/
theorem zero_lt_sqrt_ofNat {n : ℕ} (hn : 0 < n) : Scalar.lt 0 (Scalar.sqrt (ofNat n : α)) = true := by
  -- One is represented, so what is at least one is so after rounding, or it is infinity.
  have hone : Floating.Representable (format α) 1 := by
    have h := representable_toReal (1 : α)
    rwa [toReal_one] at h
  have hlarge {b : ℝ} {z : α} (h : IsRounded b z) (hb : 1 ≤ b) :
      Scalar.isFinite z = true ∧ 1 ≤ toReal z ∨ unpacked z = .infinity .positive :=
    (h.cases_of_nonneg (zero_le_one.trans hb)).imp_left fun hz => ⟨hz.1, h.ge hone hz.1 hb⟩
  rcases hlarge (ofNat_isRounded (α := α) n) (by exact_mod_cast hn) with ⟨hfinite, hge⟩ | hinfinite
  · have hroot := sqrt_isRounded hfinite (zero_le_one.trans hge)
    exact zero_lt_iff_pos_or_infinity.mpr ((hlarge hroot (Real.one_le_sqrt.mpr hge)).imp_left fun hz =>
      ⟨hz.1, zero_lt_one.trans_le hz.2⟩)
  · exact zero_lt_iff_pos_or_infinity.mpr (.inr (by rw [sqrt_eq, hinfinite]; exact unpacked_infinity _))

end Squares

end Scalar.Binary

section Double

open Scalar Scalar.Binary

variable {xs : List Float} {norm : Norm Float}

theorem unbounded_maxMagnitude (h : ∃ x ∈ xs, ¬isFinite x = true) : Unbounded (maxMagnitude xs) := by
  obtain ⟨x, hx, hinfinite⟩ := h
  by_cases hnan : ∃ x ∈ xs, isNaN x = true
  · exact .inr (unpacked_of_isNaN (isNaN_maxMagnitude_iff.mpr hnan))
  · exact .inl (unpacked_maxMagnitude_of_infinite (forall_isNaN_eq_false hnan) hx
      (Bool.eq_false_iff.mpr hinfinite))

/-- A leaf that is not finite makes a norm infinity or no number. -/
theorem unbounded_ofLeaves (hnorm : norm.IsBuiltIn) (h : ∃ x ∈ xs, ¬isFinite x = true) :
    Unbounded (norm.ofLeaves xs) := by
  have hroot : Unbounded (rootSumSquares xs) := (unbounded_sumSquaresOf h).sqrt
  cases norm with
  | max => exact unbounded_maxMagnitude h
  | rms =>
      obtain ⟨x, hx, -⟩ := h
      rw [Norm.ofLeaves, rootMeanSquare_of_ne_nil (List.ne_nil_of_mem hx)]
      exact hroot.div (zero_lt_sqrt_ofNat (List.length_pos_of_mem hx))
  | two => exact hroot
  | custom measure => exact hnorm.elim

end Double

end LeastSquares
