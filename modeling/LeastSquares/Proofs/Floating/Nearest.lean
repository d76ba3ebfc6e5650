import Mathlib
import LeastSquares.Proofs.Exact.Number

/-!
# The nearest number of a binary format

A binary format represents the multiples of powers of two whose mantissa has at most so many bits and
whose exponent is not below the smallest one. How large the exponent may be is left open here: a number
that is too large is stored as infinity, which is a matter of packing and not of rounding.

Rounding goes to a number that the format represents and that none other of them is nearer than. It never
leads across a number that is represented (`IsNearest.le`, `IsNearest.ge`). Where two are equally near it
goes to the even one of them. That matters among the numbers of few bits, where the steps of the format
are as large as the numbers themselves (`IsNearest.lt_iff`).
-/

namespace LeastSquares.Floating

open Float.Model

variable {format : Format}

/-- A number that a format represents, if it is not too large. -/
structure Representable (format : Format) (x : ℝ) : Prop where
  exists_mantissa : ∃ k e : ℤ,
    |k| < 2 ^ format.mantissaBits ∧ format.minExponent ≤ e ∧ x = k * 2 ^ e

namespace Representable

variable {x : ℝ}

theorem neg (h : Representable format x) : Representable format (-x) := by
  obtain ⟨k, e, hk, he, rfl⟩ := h
  refine ⟨-k, e, by rwa [abs_neg], he, ?_⟩
  rw [Int.cast_neg, neg_mul]

theorem abs (h : Representable format x) : Representable format |x| := by
  rcases abs_choice x with habs | habs
  · rwa [habs]
  · rw [habs]
    exact h.neg

theorem natCast_mul {k : ℕ} {e : ℤ} (hk : k < 2 ^ format.mantissaBits)
    (he : format.minExponent ≤ e) : Representable format (k * 2 ^ e) := by
  refine ⟨k, e, ?_, he, by rw [Int.cast_natCast]⟩
  rw [Nat.abs_cast]
  exact_mod_cast hk

theorem zero : Representable format 0 := by
  have h : Representable format ((0 : ℕ) * 2 ^ format.minExponent) :=
    natCast_mul (Nat.two_pow_pos _) le_rfl
  rwa [Nat.cast_zero, zero_mul] at h

theorem two_zpow {e : ℤ} (he : format.minExponent ≤ e) : Representable format (2 ^ e) := by
  have hbits : 1 < 2 ^ format.mantissaBits := Nat.one_lt_two_pow (by simp [Format.mantissaBits])
  have h := natCast_mul hbits he
  rwa [Nat.cast_one, one_mul] at h

/-- Whatever is represented is a multiple of the smallest power of two. -/
theorem exists_multiple (h : Representable format x) : ∃ n : ℤ, x = n * 2 ^ format.minExponent := by
  obtain ⟨k, e, -, he, rfl⟩ := h
  obtain ⟨shift, hshift⟩ := Int.eq_ofNat_of_zero_le (sub_nonneg.mpr he)
  refine ⟨k * 2 ^ shift, ?_⟩
  rw [Int.cast_mul, Int.cast_pow, Int.cast_ofNat, mul_assoc, ← zpow_natCast (2 : ℝ) shift,
    ← zpow_add₀ two_ne_zero]
  congr 2
  omega

/-- No number between zero and the smallest power of two is represented. -/
theorem two_zpow_le (h : Representable format x) (hx : 0 < x) : 2 ^ format.minExponent ≤ x := by
  obtain ⟨n, rfl⟩ := h.exists_multiple
  have hpower : (0 : ℝ) < 2 ^ format.minExponent := by positivity
  have hn : (0 : ℝ) < n := (mul_pos_iff_of_pos_right hpower).mp hx
  exact le_mul_of_one_le_left hpower.le (by exact_mod_cast hn)

end Representable

/-- A number that a format represents and that is as near as any other of them. If there is another one
as near, then it is an even multiple of the distance between the two. -/
structure IsNearest (format : Format) (x r : ℝ) : Prop where
  representable : Representable format r
  closest : ∀ y, Representable format y → |x - r| ≤ |x - y|
  even_of_tie : ∀ y, Representable format y → y ≠ r → |x - y| = |x - r| →
    ∃ n : ℤ, r = n * (2 * |r - y|)

namespace IsNearest

variable {x y r : ℝ}

/-- A number that is represented is nearest to itself, and no other one is as near. -/
theorem self (h : Representable format x) : IsNearest format x x where
  representable := h
  closest y _ := by
    rw [sub_self, abs_zero]
    exact abs_nonneg _
  even_of_tie y _ hne htie := by
    rw [sub_self, abs_zero, abs_eq_zero, sub_eq_zero] at htie
    exact absurd htie.symm hne

theorem neg (h : IsNearest format x r) : IsNearest format (-x) (-r) := by
  have hmirror (a b : ℝ) : |-a - b| = |a - -b| := by
    rw [← abs_neg]
    congr 1
    ring
  refine ⟨h.representable.neg, fun y hy => ?_, fun y hy hne htie => ?_⟩
  · rw [hmirror, hmirror, neg_neg]
    exact h.closest (-y) hy.neg
  · rw [hmirror, hmirror, neg_neg] at htie
    obtain ⟨n, hn⟩ := h.even_of_tie (-y) hy.neg (fun hy => hne (by rw [← hy, neg_neg])) htie
    refine ⟨-n, ?_⟩
    rw [hmirror, Int.cast_neg, neg_mul, ← hn]

/-- A number that is represented bounds what lies below it also after rounding. -/
theorem le (h : IsNearest format x r) (hy : Representable format y) (hxy : x ≤ y) : r ≤ y := by
  by_contra hlt
  have hclosest := h.closest y hy
  rw [abs_of_nonpos (by linarith), abs_of_nonpos (by linarith)] at hclosest
  linarith

/-- And it bounds what lies above it. -/
theorem ge (h : IsNearest format x r) (hy : Representable format y) (hyx : y ≤ x) : y ≤ r := by
  have hneg := h.neg.le hy.neg (neg_le_neg hyx)
  linarith

/-- What is represented is not changed. -/
theorem eq_self (h : IsNearest format x r) (hx : Representable format x) : r = x :=
  le_antisymm (h.le hx le_rfl) (h.ge hx le_rfl)

theorem abs_le_of_abs_le (h : IsNearest format x r) (hy : Representable format y)
    (hxy : |x| ≤ y) : |r| ≤ y := by
  obtain ⟨hleft, hright⟩ := abs_le.mp hxy
  have hge := h.ge hy.neg hleft
  exact abs_le.mpr ⟨hge, h.le hy hright⟩

/-- Less than half of the smallest power of two is rounded to zero. -/
theorem eq_zero (h : IsNearest format x r) (hx : 0 ≤ x) (hhalf : x < 2 ^ format.minExponent / 2) :
    r = 0 := by
  have hnonneg : 0 ≤ r := h.ge .zero hx
  by_contra hne
  have hsmallest := h.representable.two_zpow_le (lt_of_le_of_ne hnonneg (Ne.symm hne))
  have hclosest := h.closest 0 .zero
  rw [abs_of_nonpos (by linarith), abs_of_nonneg (by linarith)] at hclosest
  linarith

section FewBits

variable (h : IsNearest format x r)

include h

/-- Below a multiple of the smallest power of two lies at most the multiple before it. -/
theorem le_of_lt_multiple {k : ℕ} (hlt : r < k * 2 ^ format.minExponent) :
    r ≤ (k - 1) * 2 ^ format.minExponent := by
  obtain ⟨n, hn⟩ := h.representable.exists_multiple
  have hpower : (0 : ℝ) < 2 ^ format.minExponent := by positivity
  rw [hn] at hlt ⊢
  have hcount : (n : ℝ) < k := lt_of_mul_lt_mul_right hlt hpower.le
  have hle : n ≤ (k : ℤ) - 1 := Int.le_sub_one_of_lt (by exact_mod_cast hcount)
  refine mul_le_mul_of_nonneg_right ?_ hpower.le
  exact_mod_cast hle

/-- Of two successive multiples that are equally near, rounding goes to the one with the even count. -/
theorem even_count_of_tie {j : ℤ} (hr : r = j * 2 ^ format.minExponent) (hy : Representable format y)
    (hstep : |r - y| = 2 ^ format.minExponent) (htie : |x - y| = |x - r|) : Even j := by
  have hpower : (0 : ℝ) < 2 ^ format.minExponent := by positivity
  have hne : y ≠ r := by
    rintro rfl
    rw [sub_self, abs_zero] at hstep
    exact hpower.ne hstep
  obtain ⟨n, hn⟩ := h.even_of_tie y hy hne htie
  rw [hstep, hr, ← mul_assoc] at hn
  have hcount : (j : ℝ) = n * 2 := mul_right_cancel₀ hpower.ne' hn
  exact ⟨n, by rw [← mul_two]; exact_mod_cast hcount⟩

/-- **Rounding below a number of few bits.** A number is rounded below a multiple of the smallest power of
two if it lies below the middle between this multiple and the one before, or in the middle and the count
of the multiple is odd. -/
theorem lt_iff {k : ℕ} (hk : 0 < k) (hbits : k < 2 ^ format.mantissaBits) :
    r < k * 2 ^ format.minExponent ↔
      x < (k - 1 / 2) * 2 ^ format.minExponent ∨
        x = (k - 1 / 2) * 2 ^ format.minExponent ∧ Odd k := by
  have hpower : (0 : ℝ) < 2 ^ format.minExponent := by positivity
  have hupper : Representable format (k * 2 ^ format.minExponent) := .natCast_mul hbits le_rfl
  have hlower : Representable format ((k - 1) * 2 ^ format.minExponent) := by
    have hbefore : Representable format ((k - 1 : ℕ) * 2 ^ format.minExponent) :=
      .natCast_mul (by omega) le_rfl
    rwa [Nat.cast_sub hk, Nat.cast_one] at hbefore
  have hcount : ((k - 1 : ℤ) : ℝ) = k - 1 := by push_cast; ring
  constructor
  · intro hlt
    have hbefore := h.le_of_lt_multiple hlt
    have hbelow : x < k * 2 ^ format.minExponent := by
      by_contra hge
      exact absurd (h.ge hupper (not_lt.mp hge)) (not_le.mpr hlt)
    have hclosest := (le_abs_self (x - r)).trans (h.closest _ hupper)
    rw [abs_of_neg (sub_neg.mpr hbelow)] at hclosest
    have hmiddle : x ≤ (k - 1 / 2) * 2 ^ format.minExponent := by linarith
    refine hmiddle.lt_or_eq.imp_right fun heq => ⟨heq, ?_⟩
    -- In the middle rounding went down, so the count before is even.
    have hr : r = (k - 1) * 2 ^ format.minExponent := le_antisymm hbefore (by linarith)
    have heven : Even (k - 1 : ℤ) := by
      refine h.even_count_of_tie (hr.trans (by rw [hcount])) hupper ?_ ?_
      · rw [hr, abs_of_neg (by linarith)]
        ring
      · rw [hr, heq, abs_of_neg (by linarith), abs_of_pos (by linarith)]
        ring
    have hodd : Odd (k : ℤ) := by simpa using heven.add_one
    exact_mod_cast hodd
  · intro hle
    by_contra hge
    have hge := not_lt.mp hge
    have habove : (k - 1) * 2 ^ format.minExponent < x := by
      by_contra hle'
      linarith [h.le hlower (not_lt.mp hle')]
    have hclosest := (neg_le_abs (x - r)).trans (h.closest _ hlower)
    rw [abs_of_pos (sub_pos.mpr habove)] at hclosest
    rcases hle with hlt | ⟨heq, hodd⟩
    · linarith
    · -- In the middle rounding went up, so the count is even.
      have hr : r = k * 2 ^ format.minExponent := le_antisymm (by linarith) hge
      have heven : Even (k : ℤ) := by
        refine h.even_count_of_tie (hr.trans (by rw [Int.cast_natCast])) hlower ?_ ?_
        · rw [hr, abs_of_pos (by linarith)]
          ring
        · rw [hr, heq, abs_of_pos (by linarith), abs_of_neg (by linarith)]
          ring
      exact Nat.not_even_iff_odd.mpr hodd (by exact_mod_cast heven)

end FewBits

end IsNearest

end LeastSquares.Floating
