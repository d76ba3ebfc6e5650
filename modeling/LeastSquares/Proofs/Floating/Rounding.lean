import LeastSquares.Proofs.Floating.Nearest

/-!
# How unpacked floats are rounded

The arithmetic of unpacked floats computes a mantissa that may have too many bits, and beside it whether
the exact result lies below, at or above the middle between this mantissa and the next one. Rounding
shifts the mantissa to the right until it has as many bits as the format wants, and keeps what is lost
in two further bits: the one next to the mantissa, and whether any after it was set.

What is kept is enough to round to the nearest number, and to the even one where two are equally near
(`roundWithAccuracy_rounds`). The argument is about the shifted mantissa alone: between two neighbours of
its length the format represents nothing.
-/

namespace LeastSquares.Floating

open Float.Model Float.Model.UnpackedFloat

/-! ### What is known of the rest -/

section Accuracy

/-- What an accuracy says about where a number lies between a mantissa and the next one: on the mantissa,
nearer to it, in the middle, or nearer to the next one. -/
def Describes (mantissa : ℕ) (y : ℝ) : Accuracy → Prop
  | .exact => y = mantissa
  | .inexact .lt => mantissa < y ∧ y - mantissa < mantissa + 1 - y
  | .inexact .eq => y - mantissa = mantissa + 1 - y
  | .inexact .gt => mantissa + 1 - y < y - mantissa ∧ y < mantissa + 1

variable {mantissa : ℕ} {y : ℝ} {accuracy : Accuracy} {extended : ExtendedMantissa}

theorem Describes.bounds (h : Describes mantissa y accuracy) : mantissa ≤ y ∧ y < mantissa + 1 := by
  match accuracy, h with
  | .exact, h =>
      have h : y = mantissa := h
      constructor <;> linarith
  | .inexact .lt, ⟨hleft, hright⟩ => constructor <;> linarith
  | .inexact .eq, h =>
      have h : y - mantissa = mantissa + 1 - y := h
      constructor <;> linarith
  | .inexact .gt, ⟨hleft, hright⟩ => constructor <;> linarith

/-- Rounding to the nearest even mantissa goes down or up by at most one half, and by one half only to an
even mantissa. -/
theorem Describes.round (h : Describes mantissa y accuracy) :
    ∃ up ≤ 1, accuracy.roundToNearestEven mantissa = mantissa + up ∧
      |y - (mantissa + up : ℕ)| ≤ 1 / 2 ∧
      (|y - (mantissa + up : ℕ)| = 1 / 2 → Even (mantissa + up)) := by
  match accuracy, h with
  | .exact, h =>
      have h : y = mantissa := h
      exact ⟨0, by omega, rfl, by simp [h], fun htie => by norm_num [h] at htie⟩
  | .inexact .lt, ⟨hleft, hright⟩ =>
      have hdown : |y - (mantissa + 0 : ℕ)| < 1 / 2 := by
        rw [Nat.add_zero, abs_lt]
        constructor <;> linarith
      exact ⟨0, by omega, rfl, hdown.le, fun htie => absurd htie hdown.ne⟩
  | .inexact .eq, h =>
      have h : y - mantissa = mantissa + 1 - y := h
      refine ⟨mantissa % 2, by omega, rfl, ?_, fun _ => Nat.even_iff.mpr (by omega)⟩
      rcases Nat.mod_two_eq_zero_or_one mantissa with heven | hodd
      · rw [heven, Nat.add_zero, abs_le]
        constructor <;> linarith
      · rw [hodd, abs_le]
        push_cast
        constructor <;> linarith
  | .inexact .gt, ⟨hleft, hright⟩ =>
      have hup : |y - (mantissa + 1 : ℕ)| < 1 / 2 := by
        rw [abs_lt]
        push_cast
        constructor <;> linarith
      exact ⟨1, le_rfl, rfl, hup.le, fun htie => absurd htie hup.ne⟩

theorem mantissa_ofMantissaAndAccuracy (mantissa : ℕ) (accuracy : Accuracy) :
    (ExtendedMantissa.ofMantissaAndAccuracy mantissa accuracy).mantissa = mantissa := by
  match accuracy with
  | .exact | .inexact .lt | .inexact .eq | .inexact .gt => rfl

theorem accuracy_ofMantissaAndAccuracy (mantissa : ℕ) (accuracy : Accuracy) :
    (ExtendedMantissa.ofMantissaAndAccuracy mantissa accuracy).accuracy = accuracy := by
  match accuracy with
  | .exact | .inexact .lt | .inexact .eq | .inexact .gt => rfl

/-- The two further bits are all that one shift needs. -/
theorem describes_shiftRightOne (h : Describes extended.mantissa y extended.accuracy) :
    Describes extended.shiftRightOne.mantissa (y / 2) extended.shiftRightOne.accuracy := by
  obtain ⟨mantissa, roundBit, stickyBit⟩ := extended
  obtain ⟨half, rfl | rfl⟩ := Nat.even_or_odd' mantissa
  · have hhalf : 2 * half / 2 = half := by omega
    have hbit : (2 * half % 2 != 0) = false := by simp
    cases roundBit <;> cases stickyBit <;>
      simp only [Describes, ExtendedMantissa.shiftRightOne, ExtendedMantissa.accuracy, hhalf, hbit,
        Bool.or_false, Bool.or_true, Nat.cast_mul, Nat.cast_ofNat] at h ⊢
    case false.false => linarith
    all_goals constructor <;> linarith
  · have hhalf : (2 * half + 1) / 2 = half := by omega
    have hbit : ((2 * half + 1) % 2 != 0) = true := by simp
    cases roundBit <;> cases stickyBit <;>
      simp only [Describes, ExtendedMantissa.shiftRightOne, ExtendedMantissa.accuracy, hhalf, hbit,
        Bool.or_false, Bool.or_true, Nat.cast_mul, Nat.cast_add, Nat.cast_one, Nat.cast_ofNat] at h ⊢
    case false.false => linarith
    all_goals constructor <;> linarith

theorem shiftRight_succ (extended : ExtendedMantissa) (n : ℕ) :
    extended >>> (n + 1) = (extended >>> n).shiftRightOne := rfl

/-- The induction is on the shifts. -/
theorem describes_shiftRight (h : Describes extended.mantissa y extended.accuracy) (n : ℕ) :
    Describes (extended >>> n).mantissa (y / 2 ^ n) (extended >>> n).accuracy := by
  induction n with
  | zero =>
      rw [pow_zero, div_one]
      exact h
  | succ n ih =>
      rw [shiftRight_succ, pow_succ, ← div_div]
      exact describes_shiftRightOne ih

theorem mantissa_shiftRight (extended : ExtendedMantissa) (n : ℕ) :
    (extended >>> n).mantissa = extended.mantissa / 2 ^ n := by
  induction n with
  | zero =>
      rw [pow_zero, Nat.div_one]
      rfl
  | succ n ih =>
      have hone : (extended >>> (n + 1)).mantissa = (extended >>> n).mantissa / 2 := rfl
      rw [hone, ih, Nat.div_div_eq_div_mul, ← pow_succ]

end Accuracy

/-! ### Mantissas of the length of the format -/

section Canonical

variable {format : Format} {k : ℕ} {e : ℤ}

/-- A mantissa and an exponent of a format: the mantissa has as many bits as the format wants, or fewer
at the smallest exponent. -/
structure InForm (format : Format) (mantissa : ℕ) (exponent : ℤ) : Prop where
  lt : mantissa < 2 ^ format.mantissaBits
  minExponent_le : format.minExponent ≤ exponent
  le_of_ne : exponent ≠ format.minExponent → 2 ^ format.mantissaBitsWithoutImplicit ≤ mantissa

theorem mantissaBits_eq (format : Format) :
    format.mantissaBits = format.mantissaBitsWithoutImplicit + 1 := Nat.add_comm 1 _

/-- Between neighbours of the length of the format nothing is represented. -/
theorem InForm.not_between (h : InForm format k e) {x : ℝ} (hx : Representable format x)
    (hleft : k * 2 ^ e < x) : (k + 1) * 2 ^ e ≤ x := by
  obtain ⟨l, j, hl, hj, rfl⟩ := hx
  by_cases hej : e ≤ j
  · -- With no smaller exponent the number is a multiple of the same power of two.
    obtain ⟨d, rfl⟩ := Int.exists_add_of_le hej
    have hsplit : (l : ℝ) * 2 ^ (e + (d : ℤ)) = ((l * 2 ^ d : ℤ) : ℝ) * 2 ^ e := by
      rw [zpow_add₀ two_ne_zero, zpow_natCast]
      push_cast
      ring
    rw [hsplit] at hleft ⊢
    have hlt : (k : ℝ) < ((l * 2 ^ d : ℤ) : ℝ) := lt_of_mul_lt_mul_right hleft (by positivity)
    have hle : (k : ℤ) + 1 ≤ l * 2 ^ d := by exact_mod_cast hlt
    refine mul_le_mul_of_nonneg_right ?_ (by positivity)
    exact_mod_cast hle
  · -- With a smaller one it is too small, since the mantissa is not a short one.
    exfalso
    have hbits := h.le_of_ne (by omega)
    have hsmall : (l : ℝ) * 2 ^ j < 2 ^ format.mantissaBits * 2 ^ j := by
      refine mul_lt_mul_of_pos_right ?_ (by positivity)
      exact_mod_cast (le_abs_self l).trans_lt hl
    have hlarge : (2 : ℝ) ^ format.mantissaBits * 2 ^ j ≤ k * 2 ^ e := by
      calc (2 : ℝ) ^ format.mantissaBits * 2 ^ j
          = 2 ^ format.mantissaBitsWithoutImplicit * 2 ^ (j + 1) := by
            rw [mantissaBits_eq, pow_succ, zpow_add_one₀ two_ne_zero]
            ring
        _ ≤ k * 2 ^ e := by
            refine mul_le_mul (by exact_mod_cast hbits) ?_ (by positivity) (Nat.cast_nonneg k)
            exact zpow_le_zpow_right₀ one_le_two (by omega)
    linarith

theorem InForm.le_or_ge (h : InForm format k e) {x : ℝ} (hx : Representable format x) :
    x ≤ k * 2 ^ e ∨ (k + 1) * 2 ^ e ≤ x :=
  (le_or_gt x (k * 2 ^ e)).imp_right (h.not_between hx)

/-! ### The nearer of two neighbours -/

section Neighbours

variable (h : InForm format k e) {y z : ℝ} {up : ℕ} (hup : up ≤ 1)
  (hround : |y - (k + up : ℕ)| ≤ 1 / 2) (hk : k ≤ y) (hk' : y < k + 1)
  (hz : Representable format z)

include h hup hround hk hk' hz

/-- One of two neighbours that is at most half a unit away is as near as any other number. -/
theorem InForm.closest : |y * 2 ^ e - (k + up : ℕ) * 2 ^ e| ≤ |y * 2 ^ e - z| := by
  have hpower : (0 : ℝ) < 2 ^ e := by positivity
  rw [← sub_mul, abs_mul, abs_of_pos hpower]
  rw [abs_le] at hround
  rcases h.le_or_ge hz with hbelow | habove
  · -- Below the neighbours the distance is at least that to the lower one.
    have hdistance : (y - k) * 2 ^ e ≤ |y * 2 ^ e - z| := by
      refine le_trans ?_ (le_abs_self _)
      rw [sub_mul]
      linarith
    refine le_trans (mul_le_mul_of_nonneg_right (abs_le.mpr ?_) hpower.le) hdistance
    obtain rfl | rfl : up = 0 ∨ up = 1 := by omega
    · rw [Nat.add_zero]
      constructor <;> linarith
    · push_cast at hround ⊢
      constructor <;> linarith [hround.1, hround.2]
  · have hdistance : (k + 1 - y) * 2 ^ e ≤ |y * 2 ^ e - z| := by
      refine le_trans ?_ (neg_le_abs _)
      rw [sub_mul]
      linarith
    refine le_trans (mul_le_mul_of_nonneg_right (abs_le.mpr ?_) hpower.le) hdistance
    obtain rfl | rfl : up = 0 ∨ up = 1 := by omega
    · rw [Nat.add_zero] at hround ⊢
      constructor <;> linarith [hround.1, hround.2]
    · push_cast at hround ⊢
      constructor <;> linarith [hround.1, hround.2]

/-- Another number is as near only in the middle between the neighbours, and it is the other one. -/
theorem InForm.tie (hne : z ≠ (k + up : ℕ) * 2 ^ e)
    (htie : |y * 2 ^ e - z| = |y * 2 ^ e - (k + up : ℕ) * 2 ^ e|) :
    |y - (k + up : ℕ)| = 1 / 2 ∧ |(k + up : ℕ) * 2 ^ e - z| = 2 ^ e := by
  have hpower : (0 : ℝ) < 2 ^ e := by positivity
  obtain ⟨hleft, hright⟩ := abs_le.mp hround
  have hlower : k * 2 ^ e ≤ y * 2 ^ e := mul_le_mul_of_nonneg_right hk hpower.le
  have hupper : y * 2 ^ e < (k + 1) * 2 ^ e := mul_lt_mul_of_pos_right hk' hpower
  rcases h.le_or_ge hz with hbelow | habove
  · rw [abs_of_nonneg (by linarith)] at htie
    obtain rfl | rfl : up = 0 ∨ up = 1 := by omega
    · -- Below and as near as the lower neighbour is that neighbour alone.
      rw [Nat.add_zero] at hne htie
      rw [abs_of_nonneg (by linarith)] at htie
      exact absurd (by linarith) hne
    · push_cast at hleft htie ⊢
      rw [abs_of_neg (by linarith)] at htie
      have hmiddle : y ≤ k + 1 / 2 := le_of_mul_le_mul_right (by linarith) hpower
      obtain rfl : y = k + 1 / 2 := le_antisymm hmiddle (by linarith)
      obtain rfl : z = k * 2 ^ e := by linarith
      exact ⟨by rw [abs_of_neg (by linarith)]; ring, by rw [abs_of_pos (by linarith)]; ring⟩
  · rw [abs_of_neg (by linarith)] at htie
    obtain rfl | rfl : up = 0 ∨ up = 1 := by omega
    · rw [Nat.add_zero] at hright htie ⊢
      rw [abs_of_nonneg (by linarith)] at htie
      have hmiddle : k + 1 / 2 ≤ y := le_of_mul_le_mul_right (by linarith) hpower
      obtain rfl : y = k + 1 / 2 := le_antisymm (by linarith) hmiddle
      obtain rfl : z = (k + 1) * 2 ^ e := by linarith
      exact ⟨by rw [abs_of_pos (by linarith)]; ring, by rw [abs_of_neg (by linarith)]; ring⟩
    · push_cast at hne htie
      rw [abs_of_neg (by linarith)] at htie
      exact absurd (by linarith) hne

omit hz in
/-- One of two neighbours is nearest if it is at most half a unit away, and even if it is half a unit
away. -/
theorem InForm.isNearest (heven : |y - (k + up : ℕ)| = 1 / 2 → Even (k + up))
    (hrepresentable : Representable format ((k + up : ℕ) * 2 ^ e)) :
    IsNearest format (y * 2 ^ e) ((k + up : ℕ) * 2 ^ e) := by
  refine ⟨hrepresentable, fun z hz => h.closest hup hround hk hk' hz, fun z hz hne htie => ?_⟩
  obtain ⟨hhalf, hstep⟩ := h.tie hup hround hk hk' hz hne htie
  obtain ⟨j, hj⟩ := heven hhalf
  refine ⟨j, ?_⟩
  rw [hstep, hj]
  push_cast
  ring

end Neighbours

/-! ### Shifting to the exponent of the format -/

/-- A shift to the exponent that the format wants leaves a mantissa of its length. -/
theorem inForm_shift {mantissa : ℕ} {exponent : ℤ} {n : ℕ}
    (hn : exponent + n = format.targetExponent (totalExponent mantissa exponent)) :
    InForm format (mantissa / 2 ^ n) (exponent + n) := by
  have hbits := mantissaBits_eq format
  have hpositive := format.hm
  have htotal : totalExponent mantissa exponent = mantissa.log2 + 1 + exponent := rfl
  rw [Format.targetExponent, htotal] at hn
  refine ⟨?_, by omega, fun hne => ?_⟩
  · rw [Nat.div_lt_iff_lt_mul (Nat.two_pow_pos n), ← Nat.pow_add]
    exact Nat.lt_log2_self.trans_le (Nat.pow_le_pow_right Nat.two_pos (by omega))
  · have hlog : mantissa.log2 = format.mantissaBitsWithoutImplicit + n := by omega
    have hmantissa : mantissa ≠ 0 := by
      rintro rfl
      rw [Nat.log2_zero] at hlog
      omega
    rw [Nat.le_div_iff_mul_le (Nat.two_pow_pos n), ← Nat.pow_add, ← hlog]
    exact Nat.log2_self_le hmantissa

/-- After rounding the mantissa may be too long by one bit; otherwise it stays. -/
theorem shiftToTargetExponent_exact (hk : k ≤ 2 ^ format.mantissaBits) (he : format.minExponent ≤ e) :
    shiftToTargetExponent format k e .exact =
      if k = 2 ^ format.mantissaBits then
        (⟨2 ^ format.mantissaBitsWithoutImplicit, false, false⟩, e + 1)
      else (⟨k, false, false⟩, e) := by
  have hbits := mantissaBits_eq format
  have htotal : totalExponent k e = k.log2 + 1 + e := rfl
  unfold shiftToTargetExponent shiftToExponent
  dsimp only
  rw [Format.targetExponent, htotal]
  split
  · rename_i hlong
    have hlog : k.log2 = format.mantissaBits := by rw [hlong, Nat.log2_two_pow]
    have hone : (max (((k.log2 : ℕ) : ℤ) + 1 + e - format.mantissaBits) format.minExponent - e).toNat
        = 1 := by omega
    have hhalf : 2 ^ format.mantissaBits / 2 = 2 ^ format.mantissaBitsWithoutImplicit := by
      rw [hbits, Nat.pow_succ, Nat.mul_div_cancel _ Nat.two_pos]
    have heven : (2 ^ format.mantissaBits % 2 != 0) = false := by
      rw [hbits, Nat.pow_succ, Nat.mul_mod_left]
      rfl
    rw [hone, hlong]
    show (ExtendedMantissa.mk (2 ^ format.mantissaBits / 2) (2 ^ format.mantissaBits % 2 != 0) false,
      e + 1) = _
    rw [hhalf, heven]
  · rename_i hshort
    have hlog : k.log2 < format.mantissaBits := by
      by_cases hzero : k = 0
      · rw [hzero, Nat.log2_zero]
        omega
      · exact (Nat.log2_lt hzero).mpr (by omega)
    have hnone : (max (((k.log2 : ℕ) : ℤ) + 1 + e - format.mantissaBits) format.minExponent - e).toNat
        = 0 := by omega
    rw [hnone]
    show (ExtendedMantissa.mk k false false, e + ((0 : ℕ) : ℤ)) = _
    rw [Nat.cast_zero, add_zero]

end Canonical

/-! ### Floats that are nearest to a number -/

section Value

/-- A magnitude with a sign. -/
def signed : Sign → ℝ → ℝ
  | .positive, x => x
  | .negative, x => -x

/-- The number that an unpacked float stands for; zero if it stands for none. -/
noncomputable def value : UnpackedFloat → ℝ
  | .finite sign mantissa exponent _ => signed sign (mantissa * ((2 : ℕ) : ℝ) ^ exponent)
  | _ => 0

theorem value_finite (sign : Sign) {mantissa : ℕ} (exponent : ℤ) (h : 0 < mantissa) :
    value (.finite sign mantissa exponent h) = signed sign (mantissa * 2 ^ exponent) := rfl

/-- Finite floats of a format have its mantissas and exponents. Their exponent may still be too large to
be stored. -/
def InFormat (format : Format) : UnpackedFloat → Prop
  | .finite _ mantissa exponent _ => InForm format mantissa exponent
  | _ => True

/-- A float of a format that is as near to a number as any other. -/
structure Rounds (format : Format) (x : ℝ) (u : UnpackedFloat) : Prop where
  isFinite : u.isFinite = true
  inFormat : InFormat format u
  isNearest : IsNearest format x (value u)

variable {format : Format}

theorem signed_zero (sign : Sign) : signed sign 0 = 0 := by
  cases sign with
  | positive => rfl
  | negative => exact neg_zero

theorem IsNearest.signed {x r : ℝ} (h : IsNearest format x r) (sign : Sign) :
    IsNearest format (signed sign x) (signed sign r) := by
  cases sign with
  | positive => exact h
  | negative => exact h.neg

theorem InForm.representable {k : ℕ} {e : ℤ} (h : InForm format k e) :
    Representable format (k * 2 ^ e) := .natCast_mul h.lt h.minExponent_le

theorem inForm_carry {e : ℤ} (he : format.minExponent ≤ e) :
    InForm format (2 ^ format.mantissaBitsWithoutImplicit) (e + 1) := by
  refine ⟨?_, by omega, fun _ => le_rfl⟩
  rw [mantissaBits_eq]
  exact Nat.pow_lt_pow_right Nat.one_lt_two (Nat.lt_succ_self _)

theorem carry_eq (e : ℤ) :
    ((2 ^ format.mantissaBitsWithoutImplicit : ℕ) : ℝ) * 2 ^ (e + 1) =
      ((2 ^ format.mantissaBits : ℕ) : ℝ) * 2 ^ e := by
  rw [mantissaBits_eq, zpow_add_one₀ two_ne_zero, Nat.pow_succ]
  push_cast
  ring

/-- The float after the first shift and rounding, with the carry taken care of. -/
theorem roundWithAccuracy_eq {mantissa k : ℕ} {exponent e : ℤ} {accuracy : Accuracy}
    {extended : ExtendedMantissa}
    (hshift : shiftToTargetExponent format mantissa exponent accuracy = (extended, e))
    (hrounded : extended.roundedMantissa = k) (hk : k ≤ 2 ^ format.mantissaBits)
    (he : format.minExponent ≤ e) (sign : Sign) :
    roundWithAccuracy format sign mantissa exponent accuracy =
      if hzero : k = 0 then .zero sign
      else if k = 2 ^ format.mantissaBits then
        .finite sign (2 ^ format.mantissaBitsWithoutImplicit) (e + 1) (Nat.two_pow_pos _)
      else .finite sign k e (Nat.pos_of_ne_zero hzero) := by
  have hpositive : 2 ^ format.mantissaBitsWithoutImplicit ≠ 0 := (Nat.two_pow_pos _).ne'
  have hnonzero : 2 ^ format.mantissaBits ≠ 0 := (Nat.two_pow_pos _).ne'
  unfold roundWithAccuracy
  simp only [hshift, hrounded, shiftToTargetExponent_exact hk he]
  by_cases hlong : k = 2 ^ format.mantissaBits
  · subst hlong
    simp only [if_true, hpositive, hnonzero, dite_false]
  · simp only [hlong, if_false]

/-- **Rounding.** A mantissa, an exponent that is not above the one that the format wants, and what is
known of the rest are rounded to the nearest float of the format. -/
theorem roundWithAccuracy_rounds {mantissa : ℕ} {exponent : ℤ} {accuracy : Accuracy} {y : ℝ}
    (hy : Describes mantissa y accuracy)
    (hexponent : exponent ≤ format.targetExponent (totalExponent mantissa exponent)) (sign : Sign) :
    Rounds format (signed sign (y * 2 ^ exponent))
      (roundWithAccuracy format sign mantissa exponent accuracy) := by
  obtain ⟨n, hn⟩ := Int.exists_add_of_le hexponent
  have hshift : (format.targetExponent (totalExponent mantissa exponent) - exponent).toNat = n := by
    omega
  generalize hextended : ExtendedMantissa.ofMantissaAndAccuracy mantissa accuracy >>> n = extended
  have hmantissa : extended.mantissa = mantissa / 2 ^ n := by
    rw [← hextended, mantissa_shiftRight, mantissa_ofMantissaAndAccuracy]
  have hdescribes : Describes extended.mantissa (y / 2 ^ n) extended.accuracy := by
    rw [← hextended]
    refine describes_shiftRight ?_ n
    rwa [mantissa_ofMantissaAndAccuracy, accuracy_ofMantissaAndAccuracy]
  have hform : InForm format extended.mantissa (exponent + n) := by
    rw [hmantissa]
    exact inForm_shift hn.symm
  obtain ⟨up, hup, hrounded, hhalf, heven⟩ := hdescribes.round
  have hrounded : extended.roundedMantissa = extended.mantissa + up := hrounded
  have hle : extended.mantissa + up ≤ 2 ^ format.mantissaBits := by
    have hlt := hform.lt
    omega
  have hfirst : shiftToTargetExponent format mantissa exponent accuracy =
      (extended, exponent + n) := by
    unfold shiftToTargetExponent shiftToExponent
    dsimp only
    rw [hshift, hextended]
  have hx : y * 2 ^ exponent = y / 2 ^ n * 2 ^ (exponent + n) := by
    rw [zpow_add₀ two_ne_zero, zpow_natCast, mul_comm (2 ^ exponent : ℝ), ← mul_assoc,
      div_mul_cancel₀ y (pow_ne_zero n two_ne_zero)]
  obtain ⟨hlower, hupper⟩ := hdescribes.bounds
  have hnearest := hform.isNearest hup hhalf hlower hupper heven
  rw [hx, roundWithAccuracy_eq hfirst hrounded hle hform.minExponent_le sign]
  split
  · rename_i hzero
    rw [hzero, Nat.cast_zero, zero_mul] at hnearest
    refine ⟨rfl, trivial, ?_⟩
    have hsigned := (hnearest .zero).signed sign
    rwa [signed_zero] at hsigned
  · split
    · rename_i hlong
      rw [hlong, ← carry_eq] at hnearest
      have hcarry := inForm_carry hform.minExponent_le
      exact ⟨rfl, hcarry, (hnearest hcarry.representable).signed sign⟩
    · have hstays : InForm format (extended.mantissa + up) (exponent + n) := by
        refine ⟨by omega, hform.minExponent_le, fun hne => ?_⟩
        have hbits := hform.le_of_ne hne
        omega
      exact ⟨rfl, hstays, (hnearest hstays.representable).signed sign⟩

end Value

end LeastSquares.Floating
