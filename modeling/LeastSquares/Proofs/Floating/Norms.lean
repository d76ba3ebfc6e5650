import LeastSquares.Proofs.Exact.Stopping
import LeastSquares.Proofs.Floating.Magnitudes

/-!
# Norms in floating point

A norm of finite leaves may be too large for the format, and the squares of small leaves may vanish.
What is left of a norm still tells how large the leaves are: no leaf is far above a norm that is finite
and above zero (`abs_le_mul_ofLeaves`).

The largest magnitude is not rounded at all. A finite sum of squares has no partial sum that is not
finite, so it is at least each of its terms. Its root is at least the power of two in every leaf whose
square does not vanish, and where the squares do vanish it is at least the root of the smallest number
above zero. The mean takes no more off than the root of the largest count, so the norms that square
their leaves stay well above the smallest numbers (`ofLeaves_ge`).
-/

namespace LeastSquares

open Scalar Scalar.Binary Floating

section FiniteLeaves

variable {α : Type} [Scalar α] [Binary α] {x : α} {xs : List α} (hall : ∀ x ∈ xs, isFinite x = true)

include hall

/-- The largest magnitude of finite leaves is zero or the magnitude of one of them. -/
theorem isFinite_maxMagnitude : isFinite (maxMagnitude xs) = true := by
  rcases (maxMagnitude_isLargest fun x hx => isNaN_eq_false (hall x hx)).mem with h | ⟨x, hx, h⟩
  · rw [h]
    exact isFinite_zero
  · rw [h, isFinite_abs]
    exact hall x hx

theorem abs_le_maxMagnitude (hx : x ∈ xs) : |toReal x| ≤ toReal (maxMagnitude xs) := by
  have hle := (maxMagnitude_isLargest fun x hx => isNaN_eq_false (hall x hx)).abs_le x hx
  rw [← toReal_abs]
  exact ((isMagnitude_abs (isNaN_eq_false (hall x hx))).finite_of_le (isFinite_maxMagnitude hall) hle).2

/-- A finite sum of squares is at least each of the squares. -/
theorem le_sumSquaresOf (hfinite : isFinite (sumSquaresOf xs) = true) :
    0 ≤ toReal (sumSquaresOf xs) ∧
      ∀ x ∈ xs, isFinite (x * x) = true ∧ toReal (x * x) ≤ toReal (sumSquaresOf xs) := by
  obtain ⟨hsum, hterms⟩ := sumSquaresOf_isMagnitude fun x hx => isNaN_eq_false (hall x hx)
  exact ⟨hsum.toReal_nonneg hfinite, fun x hx =>
    (isMagnitude_mul_self (isNaN_eq_false (hall x hx))).finite_of_le hfinite (hterms x hx)⟩

end FiniteLeaves

section Double

variable {xs : List Float} {x : Float}

theorem minExponent_double : (format Float).minExponent = -1074 := rfl

theorem limit_double : limit (format Float) = 2 ^ (1024 : ℤ) := by
  have hbias : (format Float).exponentBias = 1023 := rfl
  rw [limit_eq, hbias, ← zpow_natCast]
  congr 1

theorem representable_two_zpow {j : ℤ} (hj : -1074 ≤ j) : Representable (format Float) (2 ^ j) :=
  .two_zpow (by rwa [minExponent_double])

theorem two_zpow_lt_limit {j : ℤ} (hj : j < 1024) : (2 : ℝ) ^ j < limit (format Float) := by
  rw [limit_double]
  exact zpow_lt_zpow_right₀ one_lt_two hj

/-- The squares of a magnitude of at least the root of the smallest number do not vanish. -/
theorem two_zpow_le_mul_self (hx : isFinite x = true) (hsquare : isFinite (x * x) = true) {k : ℤ}
    (hk : -537 ≤ k) (hle : 2 ^ k ≤ |toReal x|) : (2 : ℝ) ^ (k + k) ≤ toReal (x * x) := by
  refine (mul_isRounded hx hx).ge (representable_two_zpow (by omega)) hsquare ?_
  rw [← abs_mul_abs_self, zpow_add₀ two_ne_zero]
  exact mul_self_le_mul_self (by positivity) hle

theorem two_zpow_le_sqrt (hx : isFinite x = true) (hroot : isFinite (Scalar.sqrt x) = true) {k : ℤ}
    (hk : -1074 ≤ k) (hle : 2 ^ (k + k) ≤ toReal x) : (2 : ℝ) ^ k ≤ toReal (Scalar.sqrt x) := by
  have hnonneg : 0 ≤ toReal x := le_trans (by positivity) hle
  refine (sqrt_isRounded hx hnonneg).ge (representable_two_zpow hk) hroot ?_
  rw [Real.le_sqrt (by positivity) hnonneg, sq, ← zpow_add₀ two_ne_zero]
  exact hle

/-- The root of the sum of squares is at least the power of two in a leaf that is not too small. -/
theorem two_zpow_le_rootSumSquares (hall : ∀ x ∈ xs, isFinite x = true)
    (hfinite : isFinite (rootSumSquares xs) = true) (hx : x ∈ xs) {k : ℤ} (hk : -537 ≤ k)
    (hle : 2 ^ k ≤ |toReal x|) : (2 : ℝ) ^ k ≤ toReal (rootSumSquares xs) := by
  have hsum := isFinite_of_sqrt hfinite
  obtain ⟨hsquare, hterm⟩ := (le_sumSquaresOf hall hsum).2 x hx
  exact two_zpow_le_sqrt hsum hfinite (by omega)
    ((two_zpow_le_mul_self (hall x hx) hsquare hk hle).trans hterm)

/-- A root that is above zero is the root of at least the smallest number above zero. -/
theorem rootSumSquares_ge (hall : ∀ x ∈ xs, isFinite x = true)
    (hfinite : isFinite (rootSumSquares xs) = true) (hpos : 0 < toReal (rootSumSquares xs)) :
    (2 : ℝ) ^ (-537 : ℤ) ≤ toReal (rootSumSquares xs) := by
  have hsum := isFinite_of_sqrt hfinite
  have hnonneg := (le_sumSquaresOf hall hsum).1
  have hsquares : 0 < toReal (sumSquaresOf xs) := by
    refine lt_of_le_of_ne hnonneg fun hzero => not_le.mpr hpos ?_
    refine (sqrt_isRounded hsum hnonneg).le .zero hfinite ?_
    rw [← hzero, Real.sqrt_zero]
  have hsmallest := (representable_toReal (sumSquaresOf xs)).two_zpow_le hsquares
  rw [minExponent_double] at hsmallest
  exact two_zpow_le_sqrt hsum hfinite (by omega) hsmallest

/-- The root of the sum of squares is not below half of any magnitude. -/
theorem abs_le_two_mul_rootSumSquares (hall : ∀ x ∈ xs, isFinite x = true)
    (hfinite : isFinite (rootSumSquares xs) = true) (hpos : 0 < toReal (rootSumSquares xs))
    (hx : x ∈ xs) : |toReal x| ≤ 2 * toReal (rootSumSquares xs) := by
  have hsplit (k : ℤ) : (2 : ℝ) ^ (k + 1) = 2 * 2 ^ k := by
    rw [zpow_add_one₀ two_ne_zero, mul_comm]
  rcases lt_or_ge |toReal x| (2 ^ (-537 + 1 : ℤ)) with hsmall | hlarge
  · calc |toReal x| ≤ 2 * 2 ^ (-537 : ℤ) := hsplit _ ▸ hsmall.le
      _ ≤ 2 * toReal (rootSumSquares xs) :=
          mul_le_mul_of_nonneg_left (rootSumSquares_ge hall hfinite hpos) zero_le_two
  · obtain ⟨k, hle, hlt⟩ := exists_mem_Ico_zpow (lt_of_lt_of_le (by positivity) hlarge)
      (one_lt_two (α := ℝ))
    have hk : -537 + 1 < k + 1 := (zpow_lt_zpow_iff_right₀ one_lt_two).mp (hlarge.trans_lt hlt)
    calc |toReal x| ≤ 2 * 2 ^ k := hsplit k ▸ hlt.le
      _ ≤ 2 * toReal (rootSumSquares xs) :=
          mul_le_mul_of_nonneg_left
            (two_zpow_le_rootSumSquares hall hfinite hx (by omega) hle) zero_le_two

theorem representable_one : Representable (format Float) 1 := by
  have h := representable_two_zpow (show -1074 ≤ (0 : ℤ) by omega)
  rwa [zpow_zero] at h

/-- A count is between one and the largest count also after rounding. -/
theorem ofNat_bounds {n : ℕ} (hn : 0 < n) (hcount : n < 2 ^ 64) :
    isFinite (ofNat n : Float) = true ∧ 1 ≤ toReal (ofNat n : Float) ∧
      toReal (ofNat n : Float) ≤ 2 ^ (32 + 32 : ℤ) := by
  have hlarge : (n : ℝ) ≤ 2 ^ (32 + 32 : ℤ) := by
    rw [zpow_add₀ two_ne_zero]
    norm_cast
    omega
  have hrounded := ofNat_isRounded (α := Float) n
  have hfinite := hrounded.isFinite (representable_two_zpow (by omega))
    ((Nat.abs_cast n).le.trans hlarge) (two_zpow_lt_limit (by omega))
  exact ⟨hfinite, hrounded.ge representable_one hfinite (by exact_mod_cast hn),
    hrounded.le (representable_two_zpow (by omega)) hfinite hlarge⟩

theorem sqrt_ofNat_bounds {n : ℕ} (hn : 0 < n) (hcount : n < 2 ^ 64) :
    isFinite (Scalar.sqrt (ofNat n : Float)) = true ∧ 1 ≤ toReal (Scalar.sqrt (ofNat n : Float)) ∧
      toReal (Scalar.sqrt (ofNat n : Float)) ≤ 2 ^ (32 : ℤ) := by
  obtain ⟨hfinite, hge, hle⟩ := ofNat_bounds hn hcount
  have hrounded := sqrt_isRounded hfinite (zero_le_one.trans hge)
  have hroot_le : √(toReal (ofNat n : Float)) ≤ 2 ^ (32 : ℤ) := by
    rw [Real.sqrt_le_left (by positivity), sq, ← zpow_add₀ two_ne_zero]
    exact hle
  have hroot := hrounded.isFinite (representable_two_zpow (by omega))
    ((abs_of_nonneg (Real.sqrt_nonneg _)).le.trans hroot_le) (two_zpow_lt_limit (by omega))
  exact ⟨hroot, hrounded.ge representable_one hroot (Real.one_le_sqrt.mpr hge),
    hrounded.le (representable_two_zpow (by omega)) hroot hroot_le⟩

variable (hall : ∀ x ∈ xs, isFinite x = true) (hcount : xs.length < 2 ^ 64)
  (hfinite : isFinite (rootMeanSquare xs) = true) (hpos : 0 < toReal (rootMeanSquare xs))

include hcount hfinite hpos

/-- The mean takes no more than the root of the largest count off the root of the sum of squares. -/
theorem exists_divisor : isFinite (rootSumSquares xs) = true ∧
    ∃ q : ℝ, 1 ≤ q ∧ q ≤ 2 ^ (32 : ℤ) ∧
      IsRounded (toReal (rootSumSquares xs) / q) (rootMeanSquare xs) := by
  have hne : xs ≠ [] := by
    rintro rfl
    exact absurd hpos (not_lt.mpr toReal_zero.le)
  obtain ⟨hroot, hone, hle⟩ := sqrt_ofNat_bounds (List.length_pos_of_ne_nil hne) hcount
  rw [rootMeanSquare_of_ne_nil hne] at hfinite ⊢
  have htop := isFinite_of_div hfinite
  exact ⟨htop, _, hone, hle, div_isRounded htop hroot (zero_lt_one.trans_le hone).ne'⟩

theorem rootSumSquares_pos : 0 < toReal (rootSumSquares xs) := by
  obtain ⟨-, q, hone, -, hrounded⟩ := exists_divisor hcount hfinite hpos
  by_contra hneg
  have hquotient := div_nonpos_of_nonpos_of_nonneg (not_lt.mp hneg) (zero_le_one.trans hone)
  exact not_lt.mpr (hrounded.le .zero hfinite hquotient) hpos

theorem two_zpow_le_rootMeanSquare {k : ℤ} (hk : -537 ≤ k)
    (hge : 2 ^ k ≤ toReal (rootSumSquares xs)) :
    (2 : ℝ) ^ (k - 32) ≤ toReal (rootMeanSquare xs) := by
  obtain ⟨-, q, hone, hle, hrounded⟩ := exists_divisor hcount hfinite hpos
  refine hrounded.ge (representable_two_zpow (by omega)) hfinite ?_
  rw [le_div_iff₀ (zero_lt_one.trans_le hone), zpow_sub₀ two_ne_zero]
  calc (2 : ℝ) ^ k / 2 ^ (32 : ℤ) * q ≤ 2 ^ k / 2 ^ (32 : ℤ) * 2 ^ (32 : ℤ) :=
        mul_le_mul_of_nonneg_left hle (by positivity)
    _ = 2 ^ k := div_mul_cancel₀ _ (by positivity)
    _ ≤ toReal (rootSumSquares xs) := hge

include hall

/-- The root of the sum of squares of a mean above zero is not among the smallest numbers. -/
theorem rootSumSquares_ge_of_mean : (2 : ℝ) ^ (-537 : ℤ) ≤ toReal (rootSumSquares xs) :=
  rootSumSquares_ge hall (exists_divisor hcount hfinite hpos).1
    (rootSumSquares_pos hcount hfinite hpos)

theorem rootMeanSquare_ge : (2 : ℝ) ^ (-569 : ℤ) ≤ toReal (rootMeanSquare xs) :=
  two_zpow_le_rootMeanSquare hcount hfinite hpos le_rfl
    (rootSumSquares_ge_of_mean hall hcount hfinite hpos)

theorem abs_le_mul_rootMeanSquare (hx : x ∈ xs) :
    |toReal x| ≤ 2 ^ (34 : ℤ) * toReal (rootMeanSquare xs) := by
  have hroot := rootSumSquares_pos hcount hfinite hpos
  obtain ⟨k, hle, hlt⟩ := exists_mem_Ico_zpow hroot (one_lt_two (α := ℝ))
  have hk : -537 < k + 1 := (zpow_lt_zpow_iff_right₀ one_lt_two).mp
    ((rootSumSquares_ge_of_mean hall hcount hfinite hpos).trans_lt hlt)
  calc |toReal x| ≤ 2 * toReal (rootSumSquares xs) :=
        abs_le_two_mul_rootSumSquares hall (exists_divisor hcount hfinite hpos).1 hroot hx
    _ ≤ 2 * 2 ^ (k + 1) := mul_le_mul_of_nonneg_left hlt.le zero_le_two
    _ = 2 ^ (34 : ℤ) * 2 ^ (k - 32) := by
        rw [← zpow_one_add₀ two_ne_zero, ← zpow_add₀ two_ne_zero]
        congr 1
        omega
    _ ≤ 2 ^ (34 : ℤ) * toReal (rootMeanSquare xs) :=
        mul_le_mul_of_nonneg_left (two_zpow_le_rootMeanSquare hcount hfinite hpos (by omega) hle)
          (by positivity)

end Double

section BuiltIn

variable {xs : List Float} {norm : Norm Float} (hall : ∀ x ∈ xs, isFinite x = true)
  (hcount : xs.length < 2 ^ 64) (hfinite : isFinite (norm.ofLeaves xs) = true)
  (hpos : 0 < toReal (norm.ofLeaves xs))

include hall hcount hfinite hpos

/-- A norm that is finite and above zero is not far below the magnitude of any leaf. -/
theorem abs_le_mul_ofLeaves (hnorm : norm.IsBuiltIn) {x : Float} (hx : x ∈ xs) :
    |toReal x| ≤ 2 ^ (34 : ℤ) * toReal (norm.ofLeaves xs) := by
  have hfactor (c : ℝ) (hc : c ≤ 2 ^ (34 : ℤ)) :
      c * toReal (norm.ofLeaves xs) ≤ 2 ^ (34 : ℤ) * toReal (norm.ofLeaves xs) :=
    mul_le_mul_of_nonneg_right hc hpos.le
  cases norm with
  | max =>
      have hle := abs_le_maxMagnitude hall hx
      exact hle.trans ((one_mul _).ge.trans (hfactor 1 (by norm_num)))
  | rms => exact abs_le_mul_rootMeanSquare hall hcount hfinite hpos hx
  | two =>
      exact (abs_le_two_mul_rootSumSquares hall hfinite hpos hx).trans (hfactor 2 (by norm_num))
  | custom measure => exact hnorm.elim

/-- The norms that square their leaves are not among the smallest numbers. -/
theorem ofLeaves_ge (hnorm : norm = .rms ∨ norm = .two) :
    (2 : ℝ) ^ (-569 : ℤ) ≤ toReal (norm.ofLeaves xs) := by
  rcases hnorm with rfl | rfl
  · exact rootMeanSquare_ge hall hcount hfinite hpos
  · calc (2 : ℝ) ^ (-569 : ℤ) ≤ 2 ^ (-537 : ℤ) := zpow_le_zpow_right₀ one_le_two (by omega)
      _ ≤ toReal (rootSumSquares xs) := rootSumSquares_ge hall hfinite hpos

end BuiltIn

end LeastSquares
