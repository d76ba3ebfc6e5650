import LeastSquares.Proofs.Floating.Operations

/-!
# What is left of a float after it was stored

A float is stored as a sign, an exponent and the bits of its mantissa, and an exponent that is too large
for its field is stored as infinity. Nothing else is lost: the floats of a format that are below its
limit in magnitude are read back as they were, and the others are read back as infinity
(`unpack_pack`). What is read is always a float of the format.
-/

namespace LeastSquares.Floating

open Float.Model (Format UnpackedFloat)
open Float.Model.UnpackedFloat

variable {format : Format}

section Fields

theorem toNat_neg_one (w : ℕ) : (-1#w).toNat = 2 ^ w - 1 := by
  rw [BitVec.neg_one_eq_allOnes, BitVec.toNat_allOnes]

/-- An exponent that is not the largest is not the mark of an infinity. -/
theorem ne_neg_one {w : ℕ} {e : BitVec w} (h : e.toNat + 1 < 2 ^ w) : e ≠ -1#w := by
  rintro rfl
  rw [toNat_neg_one] at h
  omega

theorem toNat_implicit {w : ℕ} (m : BitVec w) : (1#1 ++ m).toNat = 2 ^ w + m.toNat := by
  rw [BitVec.toNat_append, ← Nat.shiftLeft_add_eq_or_of_lt m.isLt, Nat.shiftLeft_eq]
  simp

theorem minExponent_eq (format : Format) :
    format.minExponent = 1 - (format.exponentBias : ℤ) - format.mantissaBitsWithoutImplicit := by
  have hbits := mantissaBits_eq format
  have hpower : 1 ≤ 2 ^ (format.exponentBits - 1) := Nat.one_le_two_pow
  rw [Format.minExponent, Format.exponentBias]
  push_cast [hpower]
  omega

/-- The number that an exponent field of this width has room for. -/
theorem two_pow_exponentBits (format : Format) :
    2 ^ format.exponentBits = 2 * format.exponentBias + 2 := by
  have hpositive := format.he
  have hpower : 1 ≤ 2 ^ (format.exponentBits - 1) := Nat.one_le_two_pow
  have hsplit : 2 ^ format.exponentBits = 2 ^ (format.exponentBits - 1) * 2 := by
    rw [← Nat.pow_succ]
    congr 1
    omega
  rw [hsplit, Format.exponentBias]
  omega

theorem one_le_exponentBias (hwidth : 2 ≤ format.exponentBits) : 1 ≤ format.exponentBias := by
  have hpower : 2 ^ 1 ≤ 2 ^ (format.exponentBits - 1) := Nat.pow_le_pow_right Nat.two_pos (by omega)
  rw [Format.exponentBias]
  omega

theorem unpack_infinity (s : Sign) : unpack format (packedInfinity format s) = .infinity s := by
  simp [unpack, packedInfinity]

/-- Fields of a short mantissa. -/
theorem unpack_subnormal (s : Sign) {m : ℕ} (hm : 0 < m)
    (hshort : m < 2 ^ format.mantissaBitsWithoutImplicit) :
    unpack format (packComponents format s 0#_ (BitVec.ofNat _ m)) =
      .finite s m format.minExponent hm := by
  have hcapacity := two_pow_exponentBits format
  have hexponent : 0#(format.exponentBits) ≠ -1#_ := ne_neg_one (by rw [BitVec.toNat_zero]; omega)
  have hmantissa : (BitVec.ofNat format.mantissaBitsWithoutImplicit m).toNat = m :=
    Nat.mod_eq_of_lt hshort
  have hnonzero : BitVec.ofNat format.mantissaBitsWithoutImplicit m ≠ 0#_ := by
    intro hzero
    rw [hzero, BitVec.toNat_zero] at hmantissa
    omega
  have hmin := minExponent_eq format
  simp only [unpack, unpackMantissa_packComponents, unpackExponent_packComponents,
    unpackSign_packComponents, Sign.ofBitVec_toBitVec, hexponent, hnonzero, hmantissa, if_false, if_true, dite_false,
    BitVec.toNat_zero]
  congr 1
  omega

/-- Fields of a mantissa with all its bits, of which the highest is left out. -/
theorem unpack_normal (s : Sign) {m b : ℕ} {e : ℤ} (hm : 0 < m) (hform : InForm format m e)
    (hlong : 2 ^ format.mantissaBitsWithoutImplicit ≤ m)
    (hb : (b : ℤ) = e + format.exponentBias + format.mantissaBitsWithoutImplicit)
    (hroom : b + 1 < 2 ^ format.exponentBits) :
    unpack format (packComponents format s (BitVec.ofNat _ b) (BitVec.ofNat _ m)) =
      .finite s m e hm := by
  have hmin := minExponent_eq format
  have hle := hform.minExponent_le
  have hexponent : (BitVec.ofNat format.exponentBits b).toNat = b := Nat.mod_eq_of_lt (by omega)
  have hinfinite : BitVec.ofNat format.exponentBits b ≠ -1#_ := ne_neg_one (by omega)
  have hnonzero : BitVec.ofNat format.exponentBits b ≠ 0#_ := by
    intro hzero
    rw [hzero, BitVec.toNat_zero] at hexponent
    omega
  have hmantissa : (1#1 ++ BitVec.ofNat format.mantissaBitsWithoutImplicit m).toNat = m := by
    have hlt := hform.lt
    rw [mantissaBits_eq, Nat.pow_succ] at hlt
    have hmod : m % 2 ^ format.mantissaBitsWithoutImplicit =
        m - 2 ^ format.mantissaBitsWithoutImplicit := by
      rw [Nat.mod_eq_sub_mod hlong, Nat.mod_eq_of_lt (by omega)]
    rw [toNat_implicit, BitVec.toNat_ofNat, hmod]
    omega
  simp only [unpack, unpackMantissa_packComponents, unpackExponent_packComponents,
    unpackSign_packComponents, Sign.ofBitVec_toBitVec, hinfinite, hnonzero, hexponent, hmantissa, if_false]
  congr 1
  omega

end Fields

section Limit

/-- The smallest power of two that is too large for a format. -/
noncomputable def limit (format : Format) : ℝ := ((2 : ℕ) : ℝ) ^ (format.exponentBias + 1)

theorem limit_eq (format : Format) : limit format = 2 ^ (format.exponentBias + 1) := rfl

/-- The exponent has room exactly if the number is below the limit. -/
theorem InForm.lt_limit_iff {m : ℕ} {e : ℤ} (h : InForm format m e)
    (hwidth : 2 ≤ format.exponentBits) :
    m * 2 ^ e < limit format ↔ e + format.mantissaBitsWithoutImplicit ≤ format.exponentBias := by
  have hbits := mantissaBits_eq format
  have hlimit : limit format = 2 ^ ((format.exponentBias : ℤ) + 1) := by
    rw [limit_eq, ← zpow_natCast]
    push_cast
    rfl
  rw [hlimit]
  constructor
  · intro hlt
    by_contra hlarge
    have hlong : 2 ^ format.mantissaBitsWithoutImplicit ≤ m := by
      refine h.le_of_ne ?_
      have hmin := minExponent_eq format
      have hbias := one_le_exponentBias hwidth
      omega
    have hge : (2 : ℝ) ^ ((format.exponentBias : ℤ) + 1) ≤ m * 2 ^ e := by
      calc (2 : ℝ) ^ ((format.exponentBias : ℤ) + 1)
          ≤ 2 ^ ((format.mantissaBitsWithoutImplicit : ℤ) + e) :=
            zpow_le_zpow_right₀ one_le_two (by omega)
        _ = 2 ^ format.mantissaBitsWithoutImplicit * 2 ^ e := by
            rw [zpow_add₀ two_ne_zero, zpow_natCast]
        _ ≤ m * 2 ^ e := mul_le_mul_of_nonneg_right (by exact_mod_cast hlong) (by positivity)
    linarith
  · intro hroom
    calc (m : ℝ) * 2 ^ e < 2 ^ format.mantissaBits * 2 ^ e :=
          mul_lt_mul_of_pos_right (by exact_mod_cast h.lt) (by positivity)
      _ = 2 ^ ((format.mantissaBits : ℤ) + e) := by rw [zpow_add₀ two_ne_zero, zpow_natCast]
      _ ≤ 2 ^ ((format.exponentBias : ℤ) + 1) := zpow_le_zpow_right₀ one_le_two (by omega)

theorem abs_signed {x : ℝ} (hx : 0 ≤ x) (s : Sign) : |signed s x| = x := by
  cases s with
  | positive => exact abs_of_nonneg hx
  | negative => exact (abs_neg x).trans (abs_of_nonneg hx)

theorem limit_pos (format : Format) : 0 < limit format := pow_pos two_pos _

variable {u : UnpackedFloat}

/-- **Storing.** A float of a format that is below the limit is read back as it was, and one that is not
is read back as the infinity of its sign. -/
theorem unpack_pack (hwidth : 2 ≤ format.exponentBits) (hu : InFormat format u) :
    (|value u| < limit format → unpack format (pack format u) = u) ∧
      (limit format ≤ |value u| →
        ∃ s, unpack format (pack format u) = .infinity s ∧ value u = signed s |value u|) := by
  have hcapacity := two_pow_exponentBits format
  have hsmall (h : limit format ≤ |(0 : ℝ)|) : False := by
    rw [abs_zero] at h
    exact absurd (limit_pos format) (not_lt.mpr h)
  cases u with
  | notANumber => exact ⟨fun _ => unpack_packedNaN, fun h => (hsmall h).elim⟩
  | infinity s => exact ⟨fun _ => unpack_infinity s, fun h => (hsmall h).elim⟩
  | zero s => exact ⟨fun _ => unpack_packedZero, fun h => (hsmall h).elim⟩
  | finite s m e hm =>
      have hform : InForm format m e := hu
      have hmin := minExponent_eq format
      have hle := hform.minExponent_le
      have hbits := mantissaBits_eq format
      have hmagnitude : |value (.finite s m e hm)| = m * 2 ^ e := abs_signed (by positivity) s
      obtain ⟨b, hb⟩ := Int.eq_ofNat_of_zero_le
        (show 0 ≤ e + format.exponentBias + format.mantissaBitsWithoutImplicit by omega)
      have hbiased : (e + format.exponentBias + format.mantissaBitsWithoutImplicit).toNat = b := by
        omega
      rw [hmagnitude]
      constructor
      · intro hlt
        rw [hform.lt_limit_iff hwidth] at hlt
        have hroom : ¬2 ^ format.exponentBits ≤ b + 1 := by omega
        unfold pack
        simp only [hbiased, hroom, if_false]
        split
        · rename_i hlog
          have hlong : 2 ^ format.mantissaBitsWithoutImplicit ≤ m :=
            (Nat.le_log2 hm.ne').mp (by omega)
          exact unpack_normal s hm hform hlong hb.symm (by omega)
        · rename_i hlog
          have hshort : m < 2 ^ format.mantissaBitsWithoutImplicit := by
            refine (Nat.log2_lt hm.ne').mp ?_
            have hlt := (Nat.log2_lt hm.ne').mpr hform.lt
            omega
          have he : e = format.minExponent := by
            by_contra hne
            have hlong := hform.le_of_ne hne
            omega
          rw [unpack_subnormal s hm hshort, he]
      · intro hge
        have hover := mt (hform.lt_limit_iff hwidth).mpr (not_lt.mpr hge)
        have hroom : 2 ^ format.exponentBits ≤ b + 1 := by omega
        refine ⟨s, ?_, rfl⟩
        unfold pack
        simp only [hbiased, hroom, if_true]
        exact unpack_infinity s

/-- What is read is a float of the format. -/
theorem inFormat_unpack (b : BitVec format.numBits) : InFormat format (unpack format b) := by
  have hcapacity := two_pow_exponentBits format
  have hmin := minExponent_eq format
  have hbits := mantissaBits_eq format
  have hmantissa := (unpackMantissa b).isLt
  have htwice : 2 ^ format.mantissaBits = 2 ^ format.mantissaBitsWithoutImplicit * 2 := by
    rw [hbits, Nat.pow_succ]
  unfold unpack
  dsimp only
  split
  · split
    · trivial
    · trivial
  · split
    · rename_i hexponent
      split
      · trivial
      · refine ⟨by omega, ?_, fun hne => absurd ?_ hne⟩
        all_goals
          rw [hexponent, BitVec.toNat_zero]
          omega
    · rename_i hexponent
      have hpositive : (unpackExponent b).toNat ≠ 0 := fun hzero => hexponent (BitVec.eq_of_toNat_eq hzero)
      refine ⟨?_, by omega, fun _ => ?_⟩
      all_goals
        rw [toNat_implicit]
        omega

/-- What is read is below the limit. -/
theorem abs_value_unpack_lt (hwidth : 2 ≤ format.exponentBits) (b : BitVec format.numBits) :
    |value (unpack format b)| < limit format := by
  have hform := inFormat_unpack b
  have hcapacity := two_pow_exponentBits format
  have hexponent := (unpackExponent b).isLt
  have hbias := one_le_exponentBias hwidth
  have hzero : |(0 : ℝ)| < limit format := by
    rw [abs_zero]
    exact limit_pos format
  revert hform
  unfold unpack
  dsimp only
  split
  · split
    · exact fun _ => hzero
    · exact fun _ => hzero
  · rename_i hinfinite
    have hlargest : (unpackExponent b).toNat ≠ 2 ^ format.exponentBits - 1 := fun heq =>
      hinfinite (BitVec.eq_of_toNat_eq (heq.trans (toNat_neg_one _).symm))
    split
    · rename_i hsmallest
      split
      · exact fun _ => hzero
      · intro hform
        have hform : InForm format _ _ := hform
        rw [value_finite, abs_signed (by positivity), hform.lt_limit_iff hwidth, hsmallest, BitVec.toNat_zero]
        omega
    · intro hform
      have hform : InForm format _ _ := hform
      rw [value_finite, abs_signed (by positivity), hform.lt_limit_iff hwidth]
      omega

/-- A short count is stored as it is, and multiplied by one. -/
theorem rounds_shortCount (hwidth : 2 ≤ format.exponentBits)
    (hroom : format.mantissaBits ≤ format.exponentBias + 1) {n : ℕ} (hn : n < 2 ^ format.mantissaBits)
    {one : UnpackedFloat} (hone : InFormat format one) (hfinite : one.isFinite = true)
    (hvalue : value one = 1) :
    Rounds format n (UnpackedFloat.mul format
      (unpack format (pack format (UnpackedFloat.ofNat format n))) one) := by
  have hcount : Rounds format n (UnpackedFloat.ofNat format n) := rounds_ofNat n
  have hexact := hcount.isNearest.eq_self (.natCast hn)
  have hbelow : |value (UnpackedFloat.ofNat format n)| < limit format := by
    rw [hexact, Nat.abs_cast]
    calc (n : ℝ) < 2 ^ format.mantissaBits := by exact_mod_cast hn
      _ ≤ limit format := pow_le_pow_right₀ one_le_two hroom
  have h := mul_rounds hcount.inFormat hcount.isFinite hone hfinite
  rw [(unpack_pack hwidth hcount.inFormat).1 hbelow]
  rwa [hexact, hvalue, mul_one] at h

end Limit

end LeastSquares.Floating
