import LeastSquares.Json.Number
import LeastSquares.Proofs.Decimal.Scientific
import LeastSquares.Proofs.Floating.Binary

/-!
# Doubles in seventeen digits

A decimal is read as the double nearest to it (`ofScientific_isRounded`). In seventeen digits a double is
off by no more than a part in `2 * 10 ^ 16`, while the doubles next to it are further away than a part
in `2 ^ 53 + 1`; so the double is the nearest one to what is written, and it is what is read
(`nearestFloat?_eq`).
-/

namespace LeastSquares

open Float.Model (Format UnpackedFloat)
open Float.Model.UnpackedFloat (Sign)

namespace Floating

section Gaps

variable {format : Format} {k k' : ℕ} {e e' : ℤ}

/-- The next number that is represented is not nearer than a part in as many as there are mantissas. -/
theorem InForm.gap (h : InForm format k e) {y : ℝ} (hy : Representable format y)
    (hlt : k * 2 ^ e < y) : k * 2 ^ e < 2 ^ format.mantissaBits * (y - k * 2 ^ e) := by
  have hpower : (0 : ℝ) < 2 ^ e := by positivity
  have hnext : (2 : ℝ) ^ e ≤ y - k * 2 ^ e := by
    have hle := h.not_between hy hlt
    linarith
  calc (k : ℝ) * 2 ^ e < 2 ^ format.mantissaBits * 2 ^ e :=
        mul_lt_mul_of_pos_right (by exact_mod_cast h.lt) hpower
    _ ≤ 2 ^ format.mantissaBits * (y - k * 2 ^ e) := by gcongr

/-- Two numbers of a format that are nearer to each other than a part in one more than there are
mantissas are the same. -/
theorem InForm.eq_of_near (h : InForm format k e) (h' : InForm format k' e')
    (hnear : |(k : ℝ) * 2 ^ e - k' * 2 ^ e'| * (2 ^ format.mantissaBits + 1) ≤ k * 2 ^ e) :
    (k : ℝ) * 2 ^ e = k' * 2 ^ e' := by
  rcases lt_trichotomy ((k : ℝ) * 2 ^ e) (k' * 2 ^ e') with hlt | heq | hgt
  · have hgap := h.gap h'.representable hlt
    rw [abs_of_neg (by linarith)] at hnear
    linarith
  · exact heq
  · have hgap := h'.gap h.representable hgt
    rw [abs_of_pos (by linarith)] at hnear
    linarith

/-- A number has one mantissa and one exponent. -/
theorem InForm.unique (h : InForm format k e) (h' : InForm format k' e')
    (heq : (k : ℝ) * 2 ^ e = k' * 2 ^ e') : e = e' ∧ k = k' := by
  have hnot := mt (h.lt_of_lex h') heq.not_lt
  have hnot' := mt (h'.lt_of_lex h) heq.symm.not_lt
  omega

end Gaps

section Powers

/-- Whether a float is a power of ten; told on natural numbers, so that it can be decided. -/
def isPowerOfTen (n : ℕ) : UnpackedFloat → Bool
  | .finite .positive m e _ => m * 2 ^ e.toNat = 10 ^ n * 2 ^ (-e).toNat
  | _ => false

theorem value_of_isPowerOfTen {n : ℕ} {u : UnpackedFloat} (h : isPowerOfTen n u = true) :
    u.isFinite = true ∧ value u = 10 ^ n := by
  match u, h with
  | .finite .positive m e hm, h =>
      have hpower : ((2 : ℝ) ^ e.toNat) = 2 ^ e * 2 ^ (-e).toNat := by
        rw [← zpow_natCast, ← zpow_natCast, ← zpow_add₀ two_ne_zero]
        congr 1
        omega
      have hnat : (m : ℝ) * 2 ^ e.toNat = 10 ^ n * 2 ^ (-e).toNat := by
        exact_mod_cast of_decide_eq_true h
      rw [hpower, ← mul_assoc] at hnat
      exact ⟨rfl, mul_right_cancel₀ (by positivity) hnat⟩

end Powers

end Floating

open Floating

namespace Scalar.Binary

section Nearest

variable {α : Type} [Scalar α] [Binary α] {x z : α} {a : ℝ}

/-- What is rounded from near a scalar is the scalar. -/
theorem IsRounded.unpacked_eq (h : IsRounded a z) (hpos : 0 < toReal x)
    (hnear : |a - toReal x| * (2 * (2 ^ (format α).mantissaBits + 1)) ≤ toReal x) :
    unpacked z = unpacked x := by
  obtain ⟨u, hu, rfl⟩ := h
  have hclosest := hu.isNearest.closest _ (representable_toReal x)
  have hdistance : |toReal x - value u| ≤ 2 * |a - toReal x| := by
    have htriangle := abs_sub_le (toReal x) a (value u)
    rw [abs_sub_comm (toReal x) a] at htriangle
    linarith
  have hmantissas : (1 : ℝ) ≤ 2 ^ (format α).mantissaBits := one_le_pow₀ one_le_two
  have hnear : |toReal x - value u| * (2 ^ (format α).mantissaBits + 1) ≤ toReal x := by
    calc |toReal x - value u| * (2 ^ (format α).mantissaBits + 1)
        ≤ 2 * |a - toReal x| * (2 ^ (format α).mantissaBits + 1) := by gcongr
      _ = |a - toReal x| * (2 * (2 ^ (format α).mantissaBits + 1)) := by ring
      _ ≤ toReal x := hnear
  have hvalue : 0 < value u := by
    have hhalf : |toReal x - value u| * 2 ≤ |toReal x - value u| * (2 ^ (format α).mantissaBits + 1) :=
      mul_le_mul_of_nonneg_left (by linarith) (abs_nonneg _)
    have hle := le_abs_self (toReal x - value u)
    linarith
  obtain ⟨m, e, hm, hux, hform⟩ := (inFormat_unpacked x).exists_finite hpos
  obtain ⟨m', e', hm', hu', hform'⟩ := hu.inFormat.exists_finite hvalue
  have hx : toReal x = m * 2 ^ e := by
    rw [toReal, hux]
    rfl
  have hr : value u = m' * 2 ^ e' := by
    rw [hu']
    rfl
  rw [hx, hr] at hnear
  obtain ⟨rfl, rfl⟩ := hform.unique hform' (hform.eq_of_near hform' hnear)
  have hlimit := abs_toReal_lt x
  rw [hx, ← hr] at hlimit
  rw [unpacked_packed, (unpack_pack two_le_exponentBits hu.inFormat).1 hlimit, hu', hux]

end Nearest

section Doubles

/-- A short count is a double. -/
theorem toReal_toUInt64_toFloat {n : ℕ} (hn : n < 2 ^ 53) :
    isFinite n.toUInt64.toFloat = true ∧ toReal n.toUInt64.toFloat = n := by
  have hword : n.toUInt64.toNat = n := by
    rw [Nat.toUInt64_eq, UInt64.toNat_ofNat', Nat.mod_eq_of_lt (by omega)]
  have hrounded : IsRounded (n : ℝ) n.toUInt64.toFloat := by
    refine ⟨_, rounds_ofNat n, ?_⟩
    show Float.ofModel (.ofUInt64 n.toUInt64) = _
    rw [Float.Model.ofUInt64, UnpackedFloat.ofUInt64, hword]
    rfl
  have hrepresentable : Representable .binary64 (n : ℝ) := .natCast hn
  have hfinite : isFinite n.toUInt64.toFloat = true := by
    refine hrounded.isFinite hrepresentable (Nat.abs_cast n).le ?_
    calc (n : ℝ) < 2 ^ 53 := by exact_mod_cast hn
      _ ≤ limit .binary64 := pow_le_pow_right₀ one_le_two (by decide)
  refine ⟨hfinite, le_antisymm ?_ ?_⟩
  · exact hrounded.le hrepresentable hfinite le_rfl
  · exact hrounded.ge hrepresentable hfinite le_rfl

theorem isPowerOfTen_table : ∀ n : Fin Float.exactlyRepresentablePowersOfTen.size,
    isPowerOfTen n (unpacked Float.exactlyRepresentablePowersOfTen[n]) = true := by
  decide

/-- An exponent is put together again from its sign and its magnitude. -/
theorem exponent_of_sign (i : ℤ) :
    (if decide (i < 0) = true then Int.negOfNat i.natAbs else Int.ofNat i.natAbs) = i := by
  by_cases hi : i < 0
  · rw [if_pos (decide_eq_true hi), Int.negOfNat_eq, Int.ofNat_eq_natCast]
    omega
  · rw [if_neg (by simpa using hi), Int.ofNat_eq_natCast]
    omega

/-- A decimal is rounded once to a double. -/
theorem ofScientific_isRounded (m : ℕ) {i : ℤ} (hlarge : i ≤ 2 ^ 11) (hsmall : -(2 ^ 11 + m.log2) ≤ i) :
    IsRounded (m * 10 ^ i : ℝ) (Float.ofScientific m (i < 0) i.natAbs) := by
  unfold Float.ofScientific
  split
  · -- A short decimal is one operation on two doubles that are exact.
    rename_i hshort
    have hsize : i.natAbs < Float.exactlyRepresentablePowersOfTen.size := Nat.lt_succ_of_le hshort.2
    obtain ⟨hcount, hm⟩ := toReal_toUInt64_toFloat hshort.1
    obtain ⟨hpower, hten⟩ := value_of_isPowerOfTen (isPowerOfTen_table ⟨i.natAbs, hsize⟩)
    have hten : toReal Float.exactlyRepresentablePowersOfTen[i.natAbs] = 10 ^ i.natAbs := hten
    have hnonzero : toReal Float.exactlyRepresentablePowersOfTen[i.natAbs] ≠ 0 := by
      rw [hten]
      positivity
    dsimp only
    split
    · rename_i hnegative
      have hnegative : i < 0 := of_decide_eq_true hnegative
      have hquotient : (m * 10 ^ i : ℝ) = toReal m.toUInt64.toFloat /
          toReal Float.exactlyRepresentablePowersOfTen[i.natAbs] := by
        rw [hm, hten, div_eq_mul_inv, ← zpow_natCast, ← zpow_neg]
        congr 2
        omega
      rw [hquotient]
      exact div_isRounded hcount hpower hnonzero
    · rename_i hnonneg
      have hnonneg : ¬i < 0 := by simpa using hnonneg
      have hproduct : (m * 10 ^ i : ℝ) = toReal m.toUInt64.toFloat *
          toReal Float.exactlyRepresentablePowersOfTen[i.natAbs] := by
        rw [hm, hten, ← zpow_natCast]
        congr 2
        omega
      rw [hproduct]
      exact mul_isRounded hcount hpower
  · dsimp only
    rw [exponent_of_sign]
    exact ⟨_, rounds_decimal hlarge hsmall, rfl⟩

/-- The number of digits of a decimal near a double is far inside what is looked at. -/
theorem digits_of_near {x : Float} (hpos : 0 < toReal x) {m : ℕ} (hm : 0 < m) {i : ℤ}
    (hbelow : toReal x < 2 * (m * 10 ^ i)) (habove : m * 10 ^ i < 2 * toReal x) :
    -400 ≤ (Decimal.digitCount m : ℤ) + i ∧ (Decimal.digitCount m : ℤ) + i ≤ 310 := by
  have hlimit : toReal x < 2 ^ 1024 := (le_abs_self _).trans_lt (abs_toReal_lt x)
  have hleast : (2 : ℝ) ^ (-1074 : ℤ) ≤ toReal x := (representable_toReal x).two_zpow_le hpos
  obtain ⟨hlower, hupper⟩ := Decimal.decimal_bounds hm i
  constructor
  · by_contra hsmall
    have hnumbers : 2 * 2 ^ 1074 ≤ 10 ^ 400 := by decide +kernel
    have hnumbers : (2 * 2 ^ 1074 : ℝ) ≤ 10 ^ 400 := by exact_mod_cast hnumbers
    have hbelow : 2 * (m * 10 ^ i : ℝ) < toReal x := by
      calc 2 * (m * 10 ^ i : ℝ) < 2 * 10 ^ ((Decimal.digitCount m : ℤ) + i) :=
            mul_lt_mul_of_pos_left hupper two_pos
        _ ≤ 2 * 10 ^ (-400 : ℤ) :=
            mul_le_mul_of_nonneg_left (zpow_le_zpow_right₀ (by norm_num) (by omega)) two_pos.le
        _ = 2 / 10 ^ 400 := by rw [zpow_neg, div_eq_mul_inv]; rfl
        _ ≤ 1 / 2 ^ 1074 := by
            rw [div_le_div_iff₀ (by positivity) (by positivity), one_mul]
            exact hnumbers
        _ = (2 : ℝ) ^ (-1074 : ℤ) := by rw [zpow_neg, one_div]; rfl
        _ ≤ toReal x := hleast
    linarith
  · by_contra hlarge
    have hnumbers : 2 * 2 ^ 1024 ≤ 10 ^ 310 := by decide +kernel
    have habove : 2 * toReal x < m * 10 ^ i := by
      calc 2 * toReal x < 2 * 2 ^ 1024 := mul_lt_mul_of_pos_left hlimit two_pos
        _ ≤ 10 ^ 310 := by exact_mod_cast hnumbers
        _ = (10 : ℝ) ^ (310 : ℤ) := (zpow_natCast 10 310).symm
        _ ≤ 10 ^ ((Decimal.digitCount m : ℤ) - 1 + i) :=
            zpow_le_zpow_right₀ (by norm_num) (by omega)
        _ ≤ m * 10 ^ i := hlower
    linarith

/-- A decimal near a double above zero is read as the double. -/
theorem nearestFloat?_eq {x : Float} (hpos : 0 < toReal x) {m : ℕ} {i : ℤ}
    (hnear : |(m * 10 ^ i : ℝ) - toReal x| * (2 * 10 ^ 16) ≤ toReal x) :
    ∃ z, JsonNumber.nearestFloat? m i = some z ∧ unpacked z = unpacked x := by
  have hthird : |(m * 10 ^ i : ℝ) - toReal x| ≤ toReal x / 3 := by
    have hnonneg := abs_nonneg (m * 10 ^ i - toReal x)
    linarith
  obtain ⟨hbelow, habove⟩ := abs_le.mp hthird
  have hm : 0 < m := by
    rcases Nat.eq_zero_or_pos m with rfl | hm
    · rw [Nat.cast_zero, zero_mul] at hbelow
      linarith
    · exact hm
  obtain ⟨hsmall, hlarge⟩ := digits_of_near hpos hm (i := i) (by linarith) (by linarith)
  have hdigits := Decimal.digitCount_le_log2 hm
  have hrounded := ofScientific_isRounded m (i := i) (by omega) (by omega)
  have hsame : unpacked (Float.ofScientific m (i < 0) i.natAbs) = unpacked x := by
    refine hrounded.unpacked_eq hpos (le_trans ?_ hnear)
    refine mul_le_mul_of_nonneg_left ?_ (abs_nonneg _)
    show (2 : ℝ) * (2 ^ 53 + 1) ≤ 2 * 10 ^ 16
    norm_num
  have hfinite : (Float.ofScientific m (i < 0) i.natAbs).isFinite = true := by
    obtain ⟨m', e', hm', hx, -⟩ := (inFormat_unpacked x).exists_finite hpos
    show (unpacked (Float.ofScientific m (i < 0) i.natAbs)).isFinite = true
    rw [hsame, hx]
    rfl
  refine ⟨_, ?_, hsame⟩
  unfold JsonNumber.nearestFloat?
  simp only [hm.ne', not_lt.mpr hlarge, not_lt.mpr hsmall, hfinite, if_false, if_true]

end Doubles

end Scalar.Binary

end LeastSquares
