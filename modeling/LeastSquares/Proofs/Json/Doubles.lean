import LeastSquares.Proofs.Floating.Decimals
import LeastSquares.Settings.Format

/-!
# Doubles as numbers

A finite double is taken apart into a fraction and a sign (`ratioOfFloat_spec`), the fraction is written
in seventeen digits, and what is written is read as the double again, zeros with their sign included
(`float?_ofFloat`).
-/

namespace LeastSquares

open Float.Model (Format UnpackedFloat)
open Float.Model.UnpackedFloat
open Floating
open Scalar.Binary

section Bits

variable (b : BitVec Format.binary64.numBits)

theorem toNat_unpackMantissa : (unpackMantissa b).toNat = b.toNat % 2 ^ 52 := by
  simp [unpackMantissa, BitVec.extractLsb_toNat, Nat.shiftRight_eq_div_pow, Format.binary64]

theorem toNat_unpackExponent : (unpackExponent b).toNat = b.toNat / 2 ^ 52 % 2 ^ 11 := by
  simp [unpackExponent, BitVec.extractLsb_toNat, Nat.shiftRight_eq_div_pow, Format.binary64]

theorem toNat_unpackSign : (unpackSign b).toNat = b.toNat / 2 ^ 63 := by
  have hlt : b.toNat < 2 ^ 64 := b.isLt
  have hbit : b.toNat / 2 ^ 63 % 2 = b.toNat / 2 ^ 63 := by omega
  simpa [unpackSign, BitVec.extractLsb_toNat, Nat.shiftRight_eq_div_pow, Format.binary64] using hbit

end Bits

section Ratio

/-- The sign that a fraction carries. -/
def signOf (negative : Bool) : Sign := if negative then .negative else .positive

theorem ofBitVec_eq (v : BitVec 1) : Sign.ofBitVec v = signOf (v.toNat = 1) := by
  rcases BitVec.eq_zero_or_eq_one v with rfl | rfl
  · rfl
  · rfl

/-- The bits of a double. -/
def bitsOf (x : Float) : BitVec Format.binary64.numBits := x.toModel.toBits.toBitVec

/-- The fraction of a double with the given fields. -/
def ratioOfFields (sign exponent mantissa : ℕ) : Decimal.SignedRatio :=
  let significand := if exponent = 0 then mantissa else 2 ^ 52 + mantissa
  if 1075 ≤ max exponent 1 then ⟨sign = 1, significand * 2 ^ (max exponent 1 - 1075), 1⟩
  else ⟨sign = 1, significand, 2 ^ (1075 - max exponent 1)⟩

theorem ratioOfFloat_eq (x : Float) : Decimal.ratioOfFloat x =
    ratioOfFields (unpackSign (bitsOf x)).toNat (unpackExponent (bitsOf x)).toNat
      (unpackMantissa (bitsOf x)).toNat := by
  rw [toNat_unpackSign, toNat_unpackExponent, toNat_unpackMantissa]
  rfl

/-- What a fraction says of a float: zero with its sign, or the quotient. -/
structure IsRatioOf (ratio : Decimal.SignedRatio) (u : UnpackedFloat) : Prop where
  den_pos : 0 < ratio.den
  parts : (ratio.num = 0 ∧ u = .zero (signOf ratio.negative)) ∨
    ∃ m e hm, u = .finite (signOf ratio.negative) m e hm ∧ 0 < ratio.num ∧
      (ratio.num / ratio.den : ℝ) = m * 2 ^ e

variable {sign exponent mantissa significand : ℕ}
  (hsignificand : (if exponent = 0 then mantissa else 2 ^ 52 + mantissa) = significand)

include hsignificand

/-- Fields without a mantissa are those of a zero. -/
theorem ratioOfFields_zero (hzero : significand = 0) : IsRatioOf (ratioOfFields sign exponent mantissa)
    (.zero (signOf (sign = 1))) := by
  unfold ratioOfFields
  simp only [hsignificand, hzero]
  split
  · exact ⟨Nat.one_pos, .inl ⟨Nat.zero_mul _, rfl⟩⟩
  · exact ⟨Nat.two_pow_pos _, .inl ⟨rfl, rfl⟩⟩

theorem ratioOfFields_finite (hpos : 0 < significand) {e : ℤ} (he : e = (max exponent 1 : ℕ) - 1075) :
    IsRatioOf (ratioOfFields sign exponent mantissa)
      (.finite (signOf (sign = 1)) significand e hpos) := by
  unfold ratioOfFields
  simp only [hsignificand]
  split
  · have hshift : ((max exponent 1 - 1075 : ℕ) : ℤ) = e := by omega
    refine ⟨Nat.one_pos, .inr ⟨_, _, _, rfl, Nat.mul_pos hpos (Nat.two_pow_pos _), ?_⟩⟩
    rw [Nat.cast_one, div_one, Nat.cast_mul, Nat.cast_pow, Nat.cast_ofNat, ← zpow_natCast, hshift]
  · have hshift : -((1075 - max exponent 1 : ℕ) : ℤ) = e := by omega
    refine ⟨Nat.two_pow_pos _, .inr ⟨_, _, _, rfl, hpos, ?_⟩⟩
    rw [Nat.cast_pow, Nat.cast_ofNat, div_eq_mul_inv, ← zpow_natCast, ← zpow_neg, hshift]

omit hsignificand in
theorem ratioOfFloat_spec {x : Float} (hfinite : x.isFinite = true) :
    IsRatioOf (Decimal.ratioOfFloat x) (unpacked x) := by
  have hfinite : (unpack .binary64 (bitsOf x)).isFinite = true := hfinite
  rw [ratioOfFloat_eq]
  show IsRatioOf _ (unpack .binary64 (bitsOf x))
  generalize bitsOf x = b at hfinite ⊢
  revert hfinite
  unfold unpack
  dsimp only
  rw [ofBitVec_eq]
  split
  · split
    · rintro ⟨⟩
    · rintro ⟨⟩
  · intro _
    split
    · rename_i hexponent
      rw [hexponent, BitVec.toNat_zero]
      split
      · rename_i hmantissa
        exact ratioOfFields_zero (if_pos rfl) (by rw [hmantissa, BitVec.toNat_zero])
      · exact ratioOfFields_finite (if_pos rfl) _ rfl
    · rename_i hexponent
      have hnonzero : (unpackExponent b).toNat ≠ 0 := fun hzero =>
        hexponent (BitVec.eq_of_toNat_eq hzero)
      have hbias : Format.binary64.exponentBias = 1023 := rfl
      refine ratioOfFields_finite ((if_neg hnonzero).trans (toNat_implicit _).symm) _ ?_
      rw [hbias]
      omega

end Ratio

section Reading

theorem unpacked_signed (negative : Bool) (x : Float) :
    unpacked (JsonNumber.signed negative x) =
      if negative then (unpacked x).neg else unpacked x := by
  cases negative with
  | true => exact unpacked_neg x
  | false => rfl

/-- **Seventeen digits are enough.** A finite double is read back from the number that is written. -/
theorem toFloat?_ofFloat {x : Float} (hfinite : x.isFinite = true) :
    (JsonNumber.ofFloat x).toFloat? = some x := by
  obtain ⟨hden, hparts⟩ := ratioOfFloat_spec hfinite
  unfold JsonNumber.ofFloat
  generalize Decimal.ratioOfFloat x = ratio at hden hparts
  dsimp only
  rcases hparts with ⟨hzero, hx⟩ | ⟨m, e, hm, hx, hnum, hvalue⟩
  · rw [if_pos hzero]
    have hread : JsonNumber.nearestFloat? 0 (-1) = some 0.0 := rfl
    rw [JsonNumber.toFloat?, hread, Option.map_some]
    refine congrArg some (eq_of_unpacked ?_)
    rw [unpacked_signed, hx]
    cases ratio.negative <;> rfl
  · rw [if_neg hnum.ne']
    have habs : unpacked (Scalar.abs x) = .finite .positive m e hm := by
      rw [unpacked_abs, hx]
      rfl
    have hreal : toReal (Scalar.abs x) = ratio.num / ratio.den := by
      rw [toReal, habs, hvalue]
      rfl
    have hpos : 0 < toReal (Scalar.abs x) := by
      rw [hreal]
      exact div_pos (by exact_mod_cast hnum) (by exact_mod_cast hden)
    have hnear := Decimal.scientificDigits_near hnum hden (show 0 < 17 by decide)
    rw [← hreal, abs_sub_comm] at hnear
    obtain ⟨z, hz, hsame⟩ := nearestFloat?_eq hpos hnear
    have hread : JsonNumber.nearestFloat? (Decimal.scientificDigits 17 ratio.num ratio.den).1
        ((Decimal.scientificDigits 17 ratio.num ratio.den).2 - 16) = some z := hz
    rw [JsonNumber.toFloat?, hread, Option.map_some]
    refine congrArg some (eq_of_unpacked ?_)
    rw [unpacked_signed, hsame, habs, hx]
    cases ratio.negative <;> rfl

/-- A finite double is read back from JSON. -/
theorem Json.float?_ofFloat {x : Float} (hfinite : x.isFinite = true) :
    Json.float? (Json.ofFloat x) = some x := by
  rw [Json.ofFloat, if_pos hfinite]
  exact toFloat?_ofFloat hfinite

end Reading

end LeastSquares
