import Mathlib
import LeastSquares.Decimal.Scientific

/-!
# How close scientific notation is

The digits that are written for a fraction are those of the fraction times a power of ten, rounded to a
natural number. The power is chosen by the exponent of the first digit, and so what is written is off by
at most half a unit of the last digit (`scientificDigits_near`). The carry into a further digit changes
the exponent, and not the number that is written.
-/

namespace LeastSquares.Decimal

section Quotients

variable {den : ℕ} (hden : 0 < den)

include hden

/-- A quotient is rounded by at most one half. -/
theorem abs_sub_roundDiv_le (num : ℕ) : |(num / den : ℝ) - roundDiv num den| ≤ 1 / 2 := by
  have hpositive : (0 : ℝ) < den := by exact_mod_cast hden
  have hsplit : (num / den : ℝ) = (num / den : ℕ) + ((num % den : ℕ) : ℝ) / den := by
    have hmod : (num : ℝ) = den * (num / den : ℕ) + (num % den : ℕ) := by
      exact_mod_cast (Nat.div_add_mod num den).symm
    rw [hmod]
    field_simp
  have hnonneg : (0 : ℝ) ≤ ((num % den : ℕ) : ℝ) / den := by positivity
  have hone : ((num % den : ℕ) : ℝ) / den < 1 :=
    (div_lt_one hpositive).mpr (by exact_mod_cast Nat.mod_lt num hden)
  have hdown (h : 2 * (num % den) ≤ den) : ((num % den : ℕ) : ℝ) / den ≤ 1 / 2 := by
    have h : (2 * (num % den : ℕ) : ℝ) ≤ den := by exact_mod_cast h
    rw [div_le_iff₀ hpositive]
    linarith
  have hup (h : den ≤ 2 * (num % den)) : 1 / 2 ≤ ((num % den : ℕ) : ℝ) / den := by
    have h : (den : ℝ) ≤ 2 * (num % den : ℕ) := by exact_mod_cast h
    rw [le_div_iff₀ hpositive]
    linarith
  rw [hsplit, abs_le]
  unfold roundDiv
  dsimp only
  split
  · have hrest := hdown (by omega)
    constructor <;> linarith
  split
  · have hrest := hup (by omega)
    push_cast
    constructor <;> linarith
  have hrest := hdown (by omega)
  have hrest' := hup (by omega)
  split
  · constructor <;> linarith
  · push_cast
    constructor <;> linarith

/-- So is a quotient times a power of ten. -/
theorem abs_sub_scaledRound_le (num : ℕ) (power : ℤ) :
    |(num / den : ℝ) * 10 ^ power - scaledRound num den power| ≤ 1 / 2 := by
  cases power with
  | ofNat k =>
      have hscaled : (num / den : ℝ) * 10 ^ (Int.ofNat k) = ((num * 10 ^ k : ℕ) : ℝ) / den := by
        rw [Int.ofNat_eq_natCast, zpow_natCast]
        push_cast
        ring
      rw [hscaled]
      exact abs_sub_roundDiv_le hden (num * 10 ^ k)
  | negSucc k =>
      have hscaled : (num / den : ℝ) * 10 ^ (Int.negSucc k) = num / ((den * 10 ^ (k + 1) : ℕ) : ℝ) := by
        rw [zpow_negSucc]
        push_cast
        field_simp
      rw [hscaled]
      exact abs_sub_roundDiv_le (Nat.mul_pos hden (by positivity)) num

/-- Comparing a fraction with a power of ten. -/
theorem atLeastPower_iff (num : ℕ) (e : ℤ) :
    atLeastPower num den e = true ↔ (10 : ℝ) ^ e ≤ num / den := by
  have hpositive : (0 : ℝ) < den := by exact_mod_cast hden
  rw [le_div_iff₀ hpositive]
  cases e with
  | ofNat k =>
      show decide (den * 10 ^ k ≤ num) = true ↔ _
      rw [decide_eq_true_iff, Int.ofNat_eq_natCast, zpow_natCast, mul_comm]
      exact_mod_cast Iff.rfl
  | negSucc k =>
      show decide (den ≤ num * 10 ^ (k + 1)) = true ↔ _
      rw [decide_eq_true_iff, zpow_negSucc, inv_mul_le_iff₀ (by positivity), mul_comm]
      exact_mod_cast Iff.rfl

end Quotients

section Digits

theorem digitCount_pos (n : ℕ) : 0 < digitCount n := Nat.length_toDigits_pos

theorem lt_pow_digitCount (n : ℕ) : n < 10 ^ digitCount n :=
  (Nat.length_toDigits_le_iff (by decide) (digitCount_pos n)).mp le_rfl

theorem pow_digitCount_le {n : ℕ} (hn : 0 < n) : 10 ^ (digitCount n - 1) ≤ n := by
  by_cases hone : digitCount n = 1
  · rw [hone]
    exact hn
  · have hpos := digitCount_pos n
    by_contra hlt
    have hle : digitCount n ≤ digitCount n - 1 :=
      (Nat.length_toDigits_le_iff (by decide) (by omega)).mpr (not_le.mp hlt)
    omega

/-- The number of digits tells the size of a decimal. -/
theorem decimal_bounds {m : ℕ} (hm : 0 < m) (i : ℤ) :
    (10 : ℝ) ^ ((digitCount m : ℤ) - 1 + i) ≤ m * 10 ^ i ∧
      (m * 10 ^ i : ℝ) < 10 ^ ((digitCount m : ℤ) + i) := by
  have hpower : (0 : ℝ) < 10 ^ i := by positivity
  have hpos := digitCount_pos m
  have hlower : (10 : ℝ) ^ (digitCount m - 1) ≤ m := by
    exact_mod_cast pow_digitCount_le hm
  have hupper : (m : ℝ) < 10 ^ digitCount m := by exact_mod_cast lt_pow_digitCount m
  rw [zpow_add₀ (by norm_num), zpow_add₀ (by norm_num), zpow_natCast,
    show (digitCount m : ℤ) - 1 = ((digitCount m - 1 : ℕ) : ℤ) by omega, zpow_natCast]
  exact ⟨mul_le_mul_of_nonneg_right hlower hpower.le, mul_lt_mul_of_pos_right hupper hpower⟩

/-- The digits of a count are no more than its bits. -/
theorem digitCount_le_log2 {m : ℕ} (hm : 0 < m) : digitCount m ≤ m.log2 + 1 := by
  have hbits : 2 ^ (digitCount m - 1) ≤ m :=
    (Nat.pow_le_pow_left (by decide) _).trans (pow_digitCount_le hm)
  have hlog := (Nat.le_log2 hm.ne').mpr hbits
  omega

variable {num den : ℕ} (hnum : 0 < num) (hden : 0 < den)

include hnum hden

/-- The exponent of the first digit is not too large. -/
theorem pow_decimalExponent_le : (10 : ℝ) ^ decimalExponent num den ≤ num / den := by
  unfold decimalExponent
  dsimp only
  split
  · rename_i h
    exact (atLeastPower_iff hden num _).mp h
  · have hpositive : (0 : ℝ) < den := by exact_mod_cast hden
    have hlower : (10 : ℝ) ^ (digitCount num - 1) ≤ num := by exact_mod_cast pow_digitCount_le hnum
    have hupper : (den : ℝ) ≤ 10 ^ digitCount den := by exact_mod_cast (lt_pow_digitCount den).le
    have hpos := digitCount_pos num
    rw [le_div_iff₀ hpositive]
    calc (10 : ℝ) ^ ((digitCount num : ℤ) - digitCount den - 1) * den
        ≤ 10 ^ ((digitCount num : ℤ) - digitCount den - 1) * 10 ^ digitCount den := by gcongr
      _ = 10 ^ (digitCount num - 1) := by
          rw [← zpow_natCast, ← zpow_natCast, ← zpow_add₀ (by norm_num)]
          congr 1
          omega
      _ ≤ num := hlower

/-- What is written in scientific notation is off by at most half a unit of the last digit. -/
theorem scientificDigits_near {digits : ℕ} (hdigits : 0 < digits) :
    |(num / den : ℝ) - (scientificDigits digits num den).1 *
        10 ^ ((scientificDigits digits num den).2 - ((digits : ℤ) - 1))| * (2 * 10 ^ (digits - 1)) ≤
      num / den := by
  generalize he : decimalExponent num den = e
  generalize hc : scaledRound num den ((digits : ℤ) - 1 - e) = c
  have hten : (10 : ℝ) ≠ 0 := by norm_num
  have hle : (10 : ℝ) ^ e ≤ num / den := he ▸ pow_decimalExponent_le hnum hden
  have hround : |(num / den : ℝ) * 10 ^ ((digits : ℤ) - 1 - e) - c| ≤ 1 / 2 :=
    hc ▸ abs_sub_scaledRound_le hden num _
  -- A carry moves a factor of ten from the coefficient to the power.
  have hwritten : ((scientificDigits digits num den).1 : ℝ) *
      10 ^ ((scientificDigits digits num den).2 - ((digits : ℤ) - 1)) =
        c * 10 ^ (e - ((digits : ℤ) - 1)) := by
    unfold scientificDigits
    simp only [he, hc]
    split
    · rename_i hcarry
      have hcarry : (c : ℝ) = 10 ^ digits := by exact_mod_cast hcarry
      show ((10 ^ (digits - 1) : ℕ) : ℝ) * 10 ^ (e + 1 - ((digits : ℤ) - 1)) = _
      push_cast
      rw [hcarry, ← zpow_natCast, ← zpow_natCast, ← zpow_add₀ hten, ← zpow_add₀ hten]
      congr 1
      omega
    · rfl
  have hpower : (0 : ℝ) < 10 ^ (e - ((digits : ℤ) - 1)) := by positivity
  have hunit : (10 : ℝ) ^ ((digits : ℤ) - 1 - e) * 10 ^ (e - ((digits : ℤ) - 1)) = 1 := by
    rw [← zpow_add₀ hten, show (digits : ℤ) - 1 - e + (e - ((digits : ℤ) - 1)) = 0 by ring, zpow_zero]
  have hdistance : (num / den : ℝ) - c * 10 ^ (e - ((digits : ℤ) - 1)) =
      ((num / den : ℝ) * 10 ^ ((digits : ℤ) - 1 - e) - c) * 10 ^ (e - ((digits : ℤ) - 1)) := by
    rw [sub_mul, mul_assoc, hunit, mul_one]
  rw [hwritten, hdistance, abs_mul, abs_of_pos hpower]
  calc |(num / den : ℝ) * 10 ^ ((digits : ℤ) - 1 - e) - c| * 10 ^ (e - ((digits : ℤ) - 1)) *
        (2 * 10 ^ (digits - 1))
      ≤ 1 / 2 * 10 ^ (e - ((digits : ℤ) - 1)) * (2 * 10 ^ (digits - 1)) := by gcongr
    _ = 10 ^ (e - ((digits : ℤ) - 1)) * 10 ^ (digits - 1) := by ring
    _ = 10 ^ e := by
        rw [← zpow_natCast, ← zpow_add₀ hten]
        congr 1
        omega
    _ ≤ num / den := hle

end Digits

end LeastSquares.Decimal
