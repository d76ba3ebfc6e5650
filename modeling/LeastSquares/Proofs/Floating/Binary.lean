import LeastSquares.Proofs.FiniteOrder
import LeastSquares.Proofs.FiniteSums
import LeastSquares.Proofs.Floating.Packing

/-!
# Scalars that are stored in a binary format

Double and single precision differ in their format and in nothing else. The class below says what they
have in common: a scalar is unpacked, the operation is done on unpacked floats, and the result is packed
again. Its instances are read off the definitions.

What follows is what the rest of the library needs to know. A finite scalar stands for a real number that
its format represents, and finite scalars compare as these numbers do. An operation on finite scalars
answers the nearest number that the format represents if that is below the limit of the format, and a
scalar that is not finite otherwise. And what is not finite stays so under every operation.
-/

namespace LeastSquares

open Float.Model (Format UnpackedFloat)
open Float.Model.UnpackedFloat (Sign)

namespace Floating

/-! ### The order of floats is the order of their values -/

section Order

variable {format : Format} {k k' : ℕ} {e e' : ℤ}

/-- A larger exponent makes a larger number. -/
theorem InForm.lt_of_exponent_lt (h : InForm format k e) (h' : InForm format k' e') (he : e < e') :
    (k : ℝ) * 2 ^ e < k' * 2 ^ e' := by
  have hle := h.minExponent_le
  calc (k : ℝ) * 2 ^ e < 2 ^ format.mantissaBits * 2 ^ e :=
        mul_lt_mul_of_pos_right (by exact_mod_cast h.lt) (by positivity)
    _ = 2 ^ format.mantissaBitsWithoutImplicit * 2 ^ (e + 1) := by
        rw [mantissaBits_eq, pow_succ, zpow_add_one₀ two_ne_zero]
        ring
    _ ≤ k' * 2 ^ e' :=
        mul_le_mul (by exact_mod_cast h'.le_of_ne (by omega))
          (zpow_le_zpow_right₀ one_le_two (by omega)) (by positivity) (Nat.cast_nonneg k')

/-- Exponents first, then mantissas: this is the order of the numbers. -/
theorem InForm.lt_of_lex (h : InForm format k e) (h' : InForm format k' e')
    (hlex : e < e' ∨ e = e' ∧ k < k') : (k : ℝ) * 2 ^ e < k' * 2 ^ e' := by
  rcases hlex with he | ⟨rfl, hk⟩
  · exact h.lt_of_exponent_lt h' he
  · exact mul_lt_mul_of_pos_right (by exact_mod_cast hk) (by positivity)

open Scalar (unpackedRank)

/-- A float that is not zero, or one that ranks with zero. -/
inductive Ranked (format : Format) : UnpackedFloat → Prop
  | positive (m : ℕ) (e : ℤ) (hm : 0 < m) (h : InForm format m e) :
      Ranked format (.finite .positive m e hm)
  | negative (m : ℕ) (e : ℤ) (hm : 0 < m) (h : InForm format m e) :
      Ranked format (.finite .negative m e hm)
  | zero (u : UnpackedFloat) (hrank : unpackedRank u = toLex (0, toLex (0, 0)))
      (hvalue : value u = 0) : Ranked format u

variable {x y : UnpackedFloat}

theorem InFormat.ranked (hx : InFormat format x) : Ranked format x := by
  cases x with
  | finite s m e hm =>
      cases s with
      | positive => exact .positive m e hm hx
      | negative => exact .negative m e hm hx
  | zero s => exact .zero _ rfl rfl
  | infinity s => exact .zero _ rfl rfl
  | notANumber => exact .zero _ rfl rfl

/-- A float above zero has a mantissa and an exponent. -/
theorem InFormat.exists_finite (hx : InFormat format x) (hpos : 0 < value x) :
    ∃ k e hk, x = .finite .positive k e hk ∧ InForm format k e := by
  cases hx.ranked with
  | positive m e hm h => exact ⟨m, e, hm, rfl, h⟩
  | negative m e hm h =>
      have hbelow : value (.finite .negative m e hm) ≤ 0 := neg_nonpos.mpr (by positivity)
      exact absurd hpos (not_lt.mpr hbelow)
  | zero _ hrank hvalue => exact absurd hpos (not_lt.mpr hvalue.le)

/-- Its number is the mantissa times a power of two. -/
theorem InFormat.exists_mantissa (hx : InFormat format x) (hpos : 0 < value x) :
    ∃ k e, InForm format k e ∧ value x = (k : ℝ) * 2 ^ e := by
  obtain ⟨k, e, hk, rfl, hform⟩ := hx.exists_finite hpos
  exact ⟨k, e, hform, rfl⟩

/-- The rank tells the number. -/
theorem value_eq_rank (u : UnpackedFloat) :
    value u = (unpackedRank u).2.2 * 2 ^ ((unpackedRank u).1 * (unpackedRank u).2.1) := by
  have hzero : (0 : ℝ) = ((0 : ℤ) : ℝ) * 2 ^ ((0 : ℤ) * 0) := by simp
  cases u with
  | finite s m e hm =>
      cases s with
      | positive =>
          show (m : ℝ) * 2 ^ e = ((m : ℤ) : ℝ) * 2 ^ (1 * e)
          rw [one_mul, Int.cast_natCast]
      | negative =>
          show -((m : ℝ) * 2 ^ e) = ((-(m : ℤ) : ℤ) : ℝ) * 2 ^ (-1 * -e)
          rw [neg_mul_neg, one_mul, Int.cast_neg, Int.cast_natCast, neg_mul]
  | zero s => exact hzero
  | infinity s => exact hzero
  | notANumber => exact hzero

variable (hx : InFormat format x) (hy : InFormat format y)

include hx hy

theorem value_lt_of_rank_lt (hlt : unpackedRank x < unpackedRank y) : value x < value y := by
  have hpositive (m : ℕ) (e : ℤ) (hm : 0 < m) : (0 : ℝ) < m * 2 ^ e := by
    have hm : (0 : ℝ) < m := by exact_mod_cast hm
    positivity
  cases hx.ranked with
  | positive m e hm h =>
      cases hy.ranked with
      | positive m' e' hm' h' =>
          have hlex : e < e' ∨ e = e' ∧ m < m' := by
            simpa [unpackedRank, Prod.Lex.toLex_lt_toLex] using hlt
          exact h.lt_of_lex h' hlex
      | negative m' e' hm' h' => simp [unpackedRank, Prod.Lex.toLex_lt_toLex] at hlt
      | zero _ hrank hvalue =>
          rw [hrank] at hlt
          simp [unpackedRank, Prod.Lex.toLex_lt_toLex] at hlt
  | negative m e hm h =>
      have hbelow : value (.finite .negative m e hm) < 0 := neg_lt_zero.mpr (hpositive m e hm)
      cases hy.ranked with
      | positive m' e' hm' h' => exact hbelow.trans (hpositive m' e' hm')
      | negative m' e' hm' h' =>
          have hlex : e' < e ∨ e' = e ∧ m' < m := by
            simpa [unpackedRank, Prod.Lex.toLex_lt_toLex, eq_comm] using hlt
          exact neg_lt_neg (h'.lt_of_lex h hlex)
      | zero _ hrank hvalue => rwa [hvalue]
  | zero _ hrank hvalue =>
      rw [hvalue]
      cases hy.ranked with
      | positive m' e' hm' h' => exact hpositive m' e' hm'
      | negative m' e' hm' h' =>
          rw [hrank] at hlt
          simp [unpackedRank, Prod.Lex.toLex_lt_toLex] at hlt
      | zero _ hrank' hvalue' =>
          rw [hrank, hrank'] at hlt
          exact absurd hlt (lt_irrefl _)

/-- Floats of a format have the ranks of their numbers. -/
theorem rank_lt_iff : unpackedRank x < unpackedRank y ↔ value x < value y := by
  refine ⟨value_lt_of_rank_lt hx hy, fun hlt => ?_⟩
  rcases lt_trichotomy (unpackedRank x) (unpackedRank y) with hrank | hrank | hrank
  · exact hrank
  · rw [value_eq_rank x, hrank, ← value_eq_rank] at hlt
    exact absurd hlt (lt_irrefl _)
  · exact absurd (value_lt_of_rank_lt hy hx hrank) hlt.asymm

theorem rank_le_iff : unpackedRank x ≤ unpackedRank y ↔ value x ≤ value y := by
  rw [← not_lt, ← not_lt, rank_lt_iff hy hx]

end Order

end Floating

open Floating

/-! ### Scalars of a binary format -/

/-- Scalars that are stored in a binary format. -/
class Scalar.Binary (α : Type) [Scalar α] where
  format : Format
  two_le_exponentBits : 2 ≤ format.exponentBits
  mantissaBits_le : format.mantissaBits ≤ format.exponentBias + 1
  unpacked : α → UnpackedFloat
  packed : UnpackedFloat → α
  unpacked_packed (u : UnpackedFloat) :
    unpacked (packed u) = UnpackedFloat.unpack format (UnpackedFloat.pack format u)
  exists_bits (x : α) : ∃ b, unpacked x = UnpackedFloat.unpack format b
  isFinite_eq (x : α) : Scalar.isFinite x = (unpacked x).isFinite
  isNaN_eq (x : α) : Scalar.isNaN x = (unpacked x).isNaN
  lt_iff (x y : α) : Scalar.lt x y = true ↔ (unpacked x).lt (unpacked y) = true
  le_iff (x y : α) : Scalar.le x y = true ↔ (unpacked x).le (unpacked y) = true
  zero_eq : unpacked 0 = .zero .positive
  negZero_eq : unpacked Scalar.negZero = .zero .negative
  infinity_eq : unpacked Scalar.infinity = .infinity .positive
  one_eq : ∃ h, unpacked 1 = .finite .positive (2 ^ format.mantissaBitsWithoutImplicit)
    (-format.mantissaBitsWithoutImplicit) h
  epsilon_eq : ∃ h, unpacked Scalar.epsilon = .finite .positive
    (2 ^ format.mantissaBitsWithoutImplicit) (-(2 * format.mantissaBitsWithoutImplicit)) h
  minNormal_eq : ∃ h, unpacked Scalar.minNormal = .finite .positive
    (2 ^ format.mantissaBitsWithoutImplicit) format.minExponent h
  exists_count (n : ℕ) : ∃ u, Rounds format n u ∧ Scalar.ofNat n = packed u
  mul_eq (x y : α) : x * y = packed (UnpackedFloat.mul format (unpacked x) (unpacked y))
  add_eq (x y : α) : x + y = packed (UnpackedFloat.add format (unpacked x) (unpacked y))
  div_eq (x y : α) : x / y = packed (UnpackedFloat.div format (unpacked x) (unpacked y))
  neg_eq (x : α) : -x = packed (unpacked x).neg
  abs_eq (x : α) : Scalar.abs x = packed (unpacked x).abs
  sqrt_eq (x : α) : Scalar.sqrt x = packed (UnpackedFloat.sqrt format (unpacked x))

namespace Scalar

/-! ### Double and single precision -/

theorem exists_count_double (n : ℕ) :
    ∃ u, Rounds .binary64 n u ∧ (ofNat n : Float) = .ofModel (.pack u) := by
  by_cases hn : n < 2 ^ 53
  · have hword : n.toUInt64.toNat = n := by
      rw [Nat.toUInt64_eq, UInt64.toNat_ofNat', Nat.mod_eq_of_lt (by omega)]
    have hcount : (ofNat n : Float) = n.toUInt64.toFloat * Float.ofBits 0x3FF0000000000000 :=
      dif_pos ⟨hn, by decide⟩
    have hform : InFormat .binary64 (.finite .positive (2 ^ 52) (-52) (by decide)) :=
      ⟨by decide, by decide, by decide⟩
    have hone : value (.finite .positive (2 ^ 52) (-52) (by decide)) = 1 := by
      norm_num [value_finite, signed]
    refine ⟨_, rounds_shortCount (by decide) (by decide) hn hform rfl hone, hcount.trans ?_⟩
    show Float.ofModel (.ofUInt64 n.toUInt64) * _ = _
    rw [Float.Model.ofUInt64, UnpackedFloat.ofUInt64, hword]
    rfl
  · exact ⟨_, rounds_ofScientific n, dif_neg fun hshort => hn hshort.1⟩

theorem exists_count_single (n : ℕ) :
    ∃ u, Rounds .binary32 n u ∧ (ofNat n : Float32) = .ofModel (.pack u) := by
  by_cases hn : n < 2 ^ 23
  · have hword : n.toUInt64.toNat = n := by
      rw [Nat.toUInt64_eq, UInt64.toNat_ofNat', Nat.mod_eq_of_lt (by omega)]
    have hcount : (ofNat n : Float32) = n.toUInt64.toFloat32 * Float32.ofBits 0x3F800000 :=
      dif_pos ⟨hn, by decide⟩
    have hform : InFormat .binary32 (.finite .positive (2 ^ 23) (-23) (by decide)) :=
      ⟨by decide, by decide, by decide⟩
    have hone : value (.finite .positive (2 ^ 23) (-23) (by decide)) = 1 := by
      norm_num [value_finite, signed]
    refine ⟨_, rounds_shortCount (by decide) (by decide) (hn.trans (by decide)) hform rfl hone,
      hcount.trans ?_⟩
    show Float32.ofModel (.ofUInt64 n.toUInt64) * _ = _
    rw [Float32.Model.ofUInt64, UnpackedFloat.ofUInt64, hword]
    rfl
  · exact ⟨_, rounds_ofScientific n, dif_neg fun hshort => hn hshort.1⟩

instance : Binary Float where
  format := .binary64
  two_le_exponentBits := by decide
  mantissaBits_le := by decide
  unpacked x := x.toModel.unpack
  packed u := .ofModel (.pack u)
  unpacked_packed u := rfl
  exists_bits x := ⟨_, rfl⟩
  isFinite_eq x := rfl
  isNaN_eq x := rfl
  lt_iff x y := decide_eq_true_iff
  le_iff x y := decide_eq_true_iff
  zero_eq := rfl
  negZero_eq := rfl
  infinity_eq := rfl
  one_eq := ⟨by decide, rfl⟩
  epsilon_eq := ⟨by decide, rfl⟩
  minNormal_eq := ⟨by decide, rfl⟩
  exists_count := exists_count_double
  mul_eq x y := rfl
  add_eq x y := rfl
  div_eq x y := rfl
  neg_eq x := rfl
  abs_eq x := rfl
  sqrt_eq x := rfl

instance : Binary Float32 where
  format := .binary32
  two_le_exponentBits := by decide
  mantissaBits_le := by decide
  unpacked x := x.toModel.unpack
  packed u := .ofModel (.pack u)
  unpacked_packed u := rfl
  exists_bits x := ⟨_, rfl⟩
  isFinite_eq x := rfl
  isNaN_eq x := rfl
  lt_iff x y := decide_eq_true_iff
  le_iff x y := decide_eq_true_iff
  zero_eq := rfl
  negZero_eq := rfl
  infinity_eq := rfl
  one_eq := ⟨by decide, rfl⟩
  epsilon_eq := ⟨by decide, rfl⟩
  minNormal_eq := ⟨by decide, rfl⟩
  exists_count := exists_count_single
  mul_eq x y := rfl
  add_eq x y := rfl
  div_eq x y := rfl
  neg_eq x := rfl
  abs_eq x := rfl
  sqrt_eq x := rfl

namespace Binary

/-- Doubles with the same parts are the same. -/
theorem eq_of_unpacked {x y : Float} (h : unpacked x = unpacked y) : x = y := by
  have hbits := (UnpackedFloat.unpack_inj_of_valid x.toModel.valid y.toModel.valid).mp h
  obtain ⟨⟨⟨b⟩, hx⟩⟩ := x
  obtain ⟨⟨⟨b'⟩, hy⟩⟩ := y
  cases hbits
  rfl

variable {α : Type} [Scalar α] [Binary α]

/-- The number that a scalar stands for; zero if it stands for none. -/
noncomputable def toReal (x : α) : ℝ := value (unpacked x)

/-- The scalar is what is stored for a float that is nearest to a number. -/
def IsRounded (a : ℝ) (z : α) : Prop := ∃ u, Rounds (format α) a u ∧ z = packed u

variable {x y z : α} {a b : ℝ}

/-! ### Finite scalars as real numbers -/

section Numbers

theorem inFormat_unpacked (x : α) : InFormat (format α) (unpacked x) := by
  obtain ⟨bits, hbits⟩ := exists_bits x
  rw [hbits]
  exact inFormat_unpack bits

theorem representable_toReal (x : α) : Representable (format α) (toReal x) :=
  (inFormat_unpacked x).representable

theorem abs_toReal_lt (x : α) : |toReal x| < limit (format α) := by
  obtain ⟨bits, hbits⟩ := exists_bits x
  rw [toReal, hbits]
  exact abs_value_unpack_lt two_le_exponentBits bits

theorem finite_unpacked (hx : isFinite x = true) : (unpacked x).isFinite = true :=
  (isFinite_eq x).symm.trans hx

variable (hx : isFinite x = true) (hy : isFinite y = true)

include hx hy

theorem lt_iff_toReal : lt x y = true ↔ toReal x < toReal y := by
  rw [lt_iff, lt_unpacked_iff (finite_unpacked hx) (finite_unpacked hy),
    rank_lt_iff (inFormat_unpacked x) (inFormat_unpacked y)]
  rfl

theorem le_iff_toReal : le x y = true ↔ toReal x ≤ toReal y := by
  rw [le_iff, le_unpacked_iff (finite_unpacked hx) (finite_unpacked hy),
    rank_le_iff (inFormat_unpacked x) (inFormat_unpacked y)]
  rfl

end Numbers

/-! ### Results that are rounded and stored -/

section Storing

/-- Infinity is stored as such. -/
theorem unpacked_infinity (s : Sign) : unpacked (packed (.infinity s) : α) = .infinity s := by
  rw [unpacked_packed, UnpackedFloat.pack, unpack_infinity]

/-- So is what is no number. -/
theorem unpacked_notANumber : unpacked (packed .notANumber : α) = .notANumber := by
  have hsmall : |value .notANumber| < limit (format α) := by
    show |(0 : ℝ)| < _
    rw [abs_zero]
    exact limit_pos _
  rw [unpacked_packed, (unpack_pack two_le_exponentBits (u := .notANumber) trivial).1 hsmall]

/-- A nearest number that is below the limit is what is read back, and one that is not is lost but for
its sign. -/
theorem IsRounded.exists_nearest (h : IsRounded a z) :
    ∃ r, IsNearest (format α) a r ∧ (isFinite z = true ↔ |r| < limit (format α)) ∧
      (isFinite z = true → toReal z = r) ∧
      (¬isFinite z = true → ∃ s, unpacked z = .infinity s ∧ r = signed s |r|) := by
  obtain ⟨u, hu, rfl⟩ := h
  obtain ⟨hbelow, habove⟩ := unpack_pack (two_le_exponentBits (α := α)) hu.inFormat
  refine ⟨value u, hu.isNearest, ?_⟩
  rw [isFinite_eq, toReal, unpacked_packed]
  rcases lt_or_ge |value u| (limit (format α)) with hlt | hge
  · rw [hbelow hlt]
    exact ⟨iff_of_true hu.isFinite hlt, fun _ => rfl, fun h => (h hu.isFinite).elim⟩
  · obtain ⟨s, hs, hsign⟩ := habove hge
    rw [hs]
    exact ⟨iff_of_false Bool.false_ne_true (not_lt.mpr hge), fun h => (Bool.false_ne_true h).elim,
      fun _ => ⟨s, rfl, hsign⟩⟩

/-- What is above zero and too large is stored as infinity. -/
theorem IsRounded.eq_infinity (h : IsRounded a z) (ha : 0 ≤ a) (hz : ¬isFinite z = true) :
    unpacked z = .infinity .positive := by
  obtain ⟨r, hr, hfinite, -, hinfinite⟩ := h.exists_nearest
  obtain ⟨s, hs, hsign⟩ := hinfinite hz
  have hnonneg : 0 ≤ r := hr.ge .zero ha
  have hlarge : limit (format α) ≤ |r| := not_lt.mp fun hlt => hz (hfinite.mpr hlt)
  cases s with
  | positive => exact hs
  | negative =>
      have hneg : r = -|r| := hsign
      have hpos := limit_pos (format α)
      rw [abs_of_nonneg hnonneg] at hlarge hneg
      linarith

variable (h : IsRounded a z) (hb : Representable (format α) b)

include h hb

/-- A number that is represented and below the limit bounds a result that is finite. -/
theorem IsRounded.isFinite (hab : |a| ≤ b) (hlt : b < limit (format α)) : Scalar.isFinite z = true := by
  obtain ⟨r, hr, hfinite, -, -⟩ := h.exists_nearest
  exact hfinite.mpr ((hr.abs_le_of_abs_le hb hab).trans_lt hlt)

omit hb in
/-- So does the magnitude of a scalar. -/
theorem IsRounded.isFinite_of_abs_le (hab : |a| ≤ |toReal x|) : Scalar.isFinite z = true :=
  h.isFinite (representable_toReal x).abs hab (abs_toReal_lt x)

variable (hfinite : Scalar.isFinite z = true)

include hfinite

theorem IsRounded.le (hab : a ≤ b) : toReal z ≤ b := by
  obtain ⟨r, hr, -, hvalue, -⟩ := h.exists_nearest
  rw [hvalue hfinite]
  exact hr.le hb hab

theorem IsRounded.ge (hba : b ≤ a) : b ≤ toReal z := by
  obtain ⟨r, hr, -, hvalue, -⟩ := h.exists_nearest
  rw [hvalue hfinite]
  exact hr.ge hb hba

omit hb in
theorem IsRounded.eq_zero (ha : 0 ≤ a) (hhalf : a < 2 ^ (format α).minExponent / 2) :
    toReal z = 0 := by
  obtain ⟨r, hr, -, hvalue, -⟩ := h.exists_nearest
  rw [hvalue hfinite]
  exact hr.eq_zero ha hhalf

omit hb in
theorem IsRounded.lt_iff {k : ℕ} (hk : 0 < k) (hbits : k < 2 ^ (format α).mantissaBits) :
    toReal z < k * 2 ^ (format α).minExponent ↔
      a < (k - 1 / 2) * 2 ^ (format α).minExponent ∨
        a = (k - 1 / 2) * 2 ^ (format α).minExponent ∧ Odd k := by
  obtain ⟨r, hr, -, hvalue, -⟩ := h.exists_nearest
  rw [hvalue hfinite]
  exact hr.lt_iff hk hbits

end Storing

section Operations

variable (hx : isFinite x = true) (hy : isFinite y = true)

theorem ofNat_isRounded (n : ℕ) : IsRounded (n : ℝ) (ofNat n : α) := by
  obtain ⟨u, hu, hcount⟩ := exists_count (α := α) n
  exact ⟨u, hu, hcount⟩

include hx in
theorem sqrt_isRounded (hnonneg : 0 ≤ toReal x) : IsRounded (√(toReal x)) (sqrt x) :=
  ⟨_, sqrt_rounds (finite_unpacked hx) hnonneg, sqrt_eq x⟩

include hx hy

theorem mul_isRounded : IsRounded (toReal x * toReal y) (x * y) :=
  ⟨_, mul_rounds (inFormat_unpacked x) (finite_unpacked hx) (inFormat_unpacked y) (finite_unpacked hy),
    mul_eq x y⟩

theorem add_isRounded : IsRounded (toReal x + toReal y) (x + y) :=
  ⟨_, add_rounds (inFormat_unpacked x) (finite_unpacked hx) (inFormat_unpacked y) (finite_unpacked hy),
    add_eq x y⟩

theorem div_isRounded (hnonzero : toReal y ≠ 0) : IsRounded (toReal x / toReal y) (x / y) :=
  ⟨_, div_rounds (finite_unpacked hx) (finite_unpacked hy) hnonzero, div_eq x y⟩

end Operations

/-! ### Operations that do not round -/

section Exact

theorem inFormat_neg {format : Format} {u : UnpackedFloat} (hu : InFormat format u) :
    InFormat format u.neg := by
  cases u with
  | finite s m e hm => exact hu
  | zero s => trivial
  | infinity s => trivial
  | notANumber => trivial

theorem inFormat_abs {format : Format} {u : UnpackedFloat} (hu : InFormat format u) :
    InFormat format u.abs := by
  cases u with
  | finite s m e hm => exact hu
  | zero s => trivial
  | infinity s => trivial
  | notANumber => trivial

/-- A change of the sign is exact. -/
theorem unpacked_neg (x : α) : unpacked (-x) = (unpacked x).neg := by
  rw [neg_eq, unpacked_packed]
  refine (unpack_pack two_le_exponentBits (inFormat_neg (inFormat_unpacked x))).1 ?_
  rw [value_neg, abs_neg]
  exact abs_toReal_lt x

theorem unpacked_abs (x : α) : unpacked (abs x) = (unpacked x).abs := by
  rw [abs_eq, unpacked_packed]
  refine (unpack_pack two_le_exponentBits (inFormat_abs (inFormat_unpacked x))).1 ?_
  rw [value_abs, abs_abs]
  exact abs_toReal_lt x

theorem toReal_neg (x : α) : toReal (-x) = -toReal x := by
  rw [toReal, unpacked_neg, value_neg]
  rfl

theorem toReal_abs (x : α) : toReal (abs x) = |toReal x| := by
  rw [toReal, unpacked_abs, value_abs]
  rfl

theorem isFinite_neg (x : α) : isFinite (-x) = isFinite x := by
  rw [isFinite_eq, isFinite_eq, unpacked_neg]
  cases unpacked x <;> rfl

theorem isFinite_abs (x : α) : isFinite (abs x) = isFinite x := by
  rw [isFinite_eq, isFinite_eq, unpacked_abs]
  cases unpacked x <;> rfl

theorem unpacked_isNaN_eq_false {u : UnpackedFloat} (hu : u.isFinite = true) : u.isNaN = false := by
  cases u with
  | finite s m e hm => rfl
  | zero s => rfl
  | infinity s => rfl
  | notANumber => cases hu

theorem isNaN_eq_false (hx : isFinite x = true) : isNaN x = false :=
  (isNaN_eq x).trans (unpacked_isNaN_eq_false (finite_unpacked hx))

/-- The larger of two finite scalars is one of them. -/
theorem max_of_finite (hx : isFinite x = true) (hy : isFinite y = true) :
    isFinite (Scalar.max x y) = true ∧ toReal (Scalar.max x y) = toReal x ⊔ toReal y := by
  unfold Scalar.max
  rw [isNaN_eq_false hx, Bool.false_or]
  by_cases hlt : lt x y = true
  · rw [if_pos hlt]
    exact ⟨hy, (sup_eq_right.mpr ((lt_iff_toReal hx hy).mp hlt).le).symm⟩
  · rw [if_neg hlt]
    exact ⟨hx, (sup_eq_left.mpr (not_lt.mp fun h => hlt ((lt_iff_toReal hx hy).mpr h))).symm⟩

end Exact

/-! ### Constants -/

section Constants

theorem isFinite_zero : isFinite (0 : α) = true := by
  rw [isFinite_eq, zero_eq]
  rfl

theorem toReal_zero : toReal (0 : α) = 0 := by
  rw [toReal, zero_eq]
  rfl

theorem isFinite_negZero : isFinite (negZero : α) = true := by
  rw [isFinite_eq, negZero_eq]
  rfl

theorem toReal_negZero : toReal (negZero : α) = 0 := by
  rw [toReal, negZero_eq]
  rfl

theorem zero_lt_iff_toReal (hx : isFinite x = true) : lt 0 x = true ↔ 0 < toReal x := by
  rw [lt_iff_toReal isFinite_zero hx, toReal_zero]

theorem isFinite_one : isFinite (1 : α) = true := by
  obtain ⟨h, hone⟩ := one_eq (α := α)
  rw [isFinite_eq, hone]
  rfl

theorem toReal_one : toReal (1 : α) = 1 := by
  obtain ⟨h, hone⟩ := one_eq (α := α)
  rw [toReal, hone, value_finite, signed, zpow_neg, zpow_natCast, Nat.cast_pow, Nat.cast_ofNat]
  exact mul_inv_cancel₀ (pow_ne_zero _ two_ne_zero)

theorem isFinite_epsilon : isFinite (epsilon : α) = true := by
  obtain ⟨h, hepsilon⟩ := epsilon_eq (α := α)
  rw [isFinite_eq, hepsilon]
  rfl

theorem toReal_epsilon :
    toReal (epsilon : α) = 2 ^ (-((format α).mantissaBitsWithoutImplicit : ℤ)) := by
  obtain ⟨h, hepsilon⟩ := epsilon_eq (α := α)
  rw [toReal, hepsilon, value_finite, signed, Nat.cast_pow, Nat.cast_ofNat, ← zpow_natCast,
    ← zpow_add₀ two_ne_zero]
  congr 1
  omega

theorem isFinite_minNormal : isFinite (minNormal : α) = true := by
  obtain ⟨h, hnormal⟩ := minNormal_eq (α := α)
  rw [isFinite_eq, hnormal]
  rfl

theorem toReal_minNormal : toReal (minNormal : α) =
    2 ^ (format α).mantissaBitsWithoutImplicit * 2 ^ (format α).minExponent := by
  obtain ⟨h, hnormal⟩ := minNormal_eq (α := α)
  rw [toReal, hnormal, value_finite, signed, Nat.cast_pow, Nat.cast_ofNat]

end Constants

/-! ### What is not finite stays so -/

section NotFinite

variable {format : Format} {u v : UnpackedFloat}

theorem finite_of_mul (h : (UnpackedFloat.mul format u v).isFinite = true) :
    u.isFinite = true ∧ v.isFinite = true := by
  cases u <;> cases v <;> first | exact ⟨rfl, rfl⟩ | cases h

theorem finite_of_add (h : (UnpackedFloat.add format u v).isFinite = true) :
    u.isFinite = true ∧ v.isFinite = true := by
  by_cases hinfinite : ∃ s s', u = .infinity s ∧ v = .infinity s'
  · obtain ⟨s, s', rfl, rfl⟩ := hinfinite
    rw [UnpackedFloat.add] at h
    split at h <;> cases h
  · cases u <;> cases v <;> first
      | exact ⟨rfl, rfl⟩
      | exact absurd ⟨_, _, rfl, rfl⟩ hinfinite
      | cases h

theorem finite_of_div (h : (UnpackedFloat.div format u v).isFinite = true) : u.isFinite = true := by
  cases u <;> cases v <;> first | rfl | cases h

theorem finite_of_sqrt (h : (UnpackedFloat.sqrt format u).isFinite = true) : u.isFinite = true := by
  cases u with
  | infinity s => cases s <;> cases h
  | notANumber => cases h
  | zero s => rfl
  | finite s m e hm => rfl

/-- What is packed is finite only if it was finite before. -/
theorem finite_of_packed (h : isFinite (packed u : α) = true) : u.isFinite = true := by
  cases u with
  | finite s m e hm => rfl
  | zero s => rfl
  | infinity s =>
      rw [isFinite_eq, unpacked_infinity] at h
      cases h
  | notANumber =>
      rw [isFinite_eq, unpacked_notANumber] at h
      cases h

theorem isFinite_of_mul (h : isFinite (x * y) = true) : isFinite x = true ∧ isFinite y = true := by
  rw [mul_eq] at h
  rw [isFinite_eq, isFinite_eq]
  exact finite_of_mul (finite_of_packed h)

theorem isFinite_of_add (h : isFinite (x + y) = true) : isFinite x = true ∧ isFinite y = true := by
  rw [add_eq] at h
  rw [isFinite_eq, isFinite_eq]
  exact finite_of_add (finite_of_packed h)

instance : LawfulFinite α := ⟨isFinite_of_add, isFinite_of_mul⟩

theorem isFinite_of_div (h : isFinite (x / y) = true) : isFinite x = true := by
  rw [div_eq] at h
  rw [isFinite_eq]
  exact finite_of_div (finite_of_packed h)

theorem isFinite_of_sqrt (h : isFinite (sqrt x) = true) : isFinite x = true := by
  rw [sqrt_eq] at h
  rw [isFinite_eq]
  exact finite_of_sqrt (finite_of_packed h)

end NotFinite

end Binary

end Scalar

end LeastSquares
