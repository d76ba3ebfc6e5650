import LeastSquares.Proofs.Floating.Rounding

/-!
# The arithmetic of unpacked floats

Each operation on finite floats of a format answers a float of the format that is nearest to the exact
result. An operation has two things to do for this before it rounds: it computes a mantissa long enough,
so that the exponent is not above the one that the format wants, and it says what it has left out.
-/

namespace LeastSquares.Floating

open Float.Model Float.Model.UnpackedFloat

variable {format : Format}

/-! ### Exponents of a format -/

section Exponents

theorem minExponent_nonpos (format : Format) : format.minExponent ≤ 0 := by
  have hbits := mantissaBits_eq format
  have hmantissa := format.hm
  have hpower : (1 : ℤ) ≤ 2 ^ (format.exponentBits - 1) := by
    exact_mod_cast Nat.one_le_two_pow
  rw [Format.minExponent]
  omega

/-- A count of few bits is represented. -/
theorem Representable.natCast {n : ℕ} (hn : n < 2 ^ format.mantissaBits) :
    Representable format (n : ℝ) := by
  have h := natCast_mul hn (minExponent_nonpos format)
  rwa [zpow_zero, mul_one] at h

/-- The exponent that a format wants is not smaller for a number that is not smaller. -/
theorem targetExponent_mono {total total' : ℤ} (h : total ≤ total') :
    format.targetExponent total ≤ format.targetExponent total' := by
  unfold Format.targetExponent
  omega

/-- Exponents with a mantissa that is long enough are not above the exponent that the format wants. -/
theorem le_targetExponent {mantissa : ℕ} {exponent : ℤ}
    (h : format.mantissaBitsWithoutImplicit ≤ mantissa.log2 ∨ exponent ≤ format.minExponent) :
    exponent ≤ format.targetExponent (totalExponent mantissa exponent) := by
  have hbits := mantissaBits_eq format
  unfold Format.targetExponent totalExponent
  omega

/-- A mantissa of a format has all its bits, or the exponent is the smallest. -/
theorem InForm.log2 {k : ℕ} {e : ℤ} (h : InForm format k e) (hk : 0 < k) :
    format.mantissaBitsWithoutImplicit ≤ k.log2 ∨ e = format.minExponent := by
  by_cases he : e = format.minExponent
  · exact .inr he
  · exact .inl ((Nat.le_log2 hk.ne').mpr (h.le_of_ne he))

theorem log2_shiftLeft {k : ℕ} (hk : 0 < k) (n : ℕ) : (k <<< n).log2 = k.log2 + n := by
  rw [Nat.shiftLeft_eq]
  refine (Nat.log2_eq_iff (Nat.mul_pos hk (Nat.two_pow_pos n)).ne').mpr ⟨?_, ?_⟩
  · rw [Nat.pow_add]
    exact Nat.mul_le_mul_right _ (Nat.log2_self_le hk.ne')
  · have hlt := Nat.mul_lt_mul_of_pos_right (Nat.lt_log2_self (n := k)) (Nat.two_pow_pos n)
    rwa [← Nat.pow_add, show k.log2 + 1 + n = k.log2 + n + 1 by omega] at hlt

end Exponents

/-! ### Signs -/

section Signs

theorem signed_mul (s s' : Sign) (x y : ℝ) : signed (s * s') (x * y) = signed s x * signed s' y := by
  cases s with
  | positive =>
      cases s' with
      | positive => rfl
      | negative => exact (mul_neg x y).symm
  | negative =>
      cases s' with
      | positive => exact (neg_mul x y).symm
      | negative => exact (neg_mul_neg x y).symm

theorem signed_div (s s' : Sign) (x y : ℝ) : signed (s / s') (x / y) = signed s x / signed s' y := by
  cases s with
  | positive =>
      cases s' with
      | positive => rfl
      | negative => exact (div_neg x).symm
  | negative =>
      cases s' with
      | positive => exact (neg_div y x).symm
      | negative => exact (neg_div_neg_eq x y).symm

theorem value_neg (u : UnpackedFloat) : value u.neg = -value u := by
  cases u with
  | finite s m e h =>
      cases s with
      | positive => rfl
      | negative => exact (neg_neg _).symm
  | zero s => exact neg_zero.symm
  | infinity s => exact neg_zero.symm
  | notANumber => exact neg_zero.symm

theorem value_abs (u : UnpackedFloat) : value u.abs = |value u| := by
  cases u with
  | finite s m e h =>
      have hnonneg : (0 : ℝ) ≤ m * 2 ^ e := by positivity
      cases s with
      | positive => exact (abs_of_nonneg hnonneg).symm
      | negative => exact ((abs_neg _).trans (abs_of_nonneg hnonneg)).symm
  | zero s => exact abs_zero.symm
  | infinity s => exact abs_zero.symm
  | notANumber => exact abs_zero.symm

end Signs

/-! ### Products and sums -/

section Rounds

variable {x y : UnpackedFloat}

theorem rounds_zero (s : Sign) : Rounds format 0 (.zero s) :=
  ⟨rfl, trivial, .self .zero⟩

theorem InFormat.representable (h : InFormat format x) : Representable format (value x) := by
  cases x with
  | finite s m e hm =>
      cases s with
      | positive => exact InForm.representable h
      | negative => exact (InForm.representable h).neg
  | zero s => exact .zero
  | infinity s => exact .zero
  | notANumber => exact .zero

/-- A float of the format is nearest to its own number. -/
theorem InFormat.rounds_self (h : InFormat format x) (hfinite : x.isFinite = true) :
    Rounds format (value x) x := ⟨hfinite, h, .self h.representable⟩

/-- A mantissa that is given exactly is rounded for any exponent. -/
theorem round_rounds {m : ℕ} (hm : 0 < m) (e : ℤ) (s : Sign) :
    Rounds format (signed s (m * 2 ^ e)) (UnpackedFloat.round format s m e) := by
  generalize htarget : format.targetExponent (totalExponent m e) = target
  generalize hshift : (e - target).toNat = n
  have hround : UnpackedFloat.round format s m e =
      roundWithAccuracy format s (m <<< n) (e - n) .exact := by
    simp only [UnpackedFloat.round, decreaseExponent, htarget, hshift]
  have htotal : totalExponent (m <<< n) (e - n) = totalExponent m e := by
    unfold totalExponent
    rw [log2_shiftLeft hm]
    omega
  have hvalue : ((m <<< n : ℕ) : ℝ) * 2 ^ (e - n) = m * 2 ^ e := by
    rw [Nat.shiftLeft_eq, zpow_sub₀ two_ne_zero, zpow_natCast]
    push_cast
    field_simp
  have hexact : Describes (m <<< n) ((m <<< n : ℕ) : ℝ) .exact := rfl
  rw [hround, ← hvalue]
  exact roundWithAccuracy_rounds hexact (by rw [htotal, htarget]; omega) s

theorem normalize_rounds (k e : ℤ) (s : Sign) :
    Rounds format (k * 2 ^ e) (UnpackedFloat.normalize format k e s) := by
  unfold UnpackedFloat.normalize
  rcases lt_trichotomy k 0 with hneg | rfl | hpos
  · have hvalue : (k : ℝ) * 2 ^ e = signed .negative (((-k).toNat : ℕ) * 2 ^ e) := by
      have hcast : (((-k).toNat : ℕ) : ℝ) = -k := by
        have hint : (((-k).toNat : ℕ) : ℤ) = -k := by omega
        exact_mod_cast hint
      rw [hcast]
      show _ = -(-(k : ℝ) * 2 ^ e)
      ring
    rw [compare_lt_iff_lt.mpr hneg, hvalue]
    exact round_rounds (by omega) e .negative
  · rw [Int.cast_zero, zero_mul]
    exact rounds_zero s
  · have hvalue : (k : ℝ) * 2 ^ e = signed .positive ((k.toNat : ℕ) * 2 ^ e) := by
      have hcast : ((k.toNat : ℕ) : ℝ) = k := by
        have hint : ((k.toNat : ℕ) : ℤ) = k := by omega
        exact_mod_cast hint
      rw [hcast]
      rfl
    rw [compare_gt_iff_gt.mpr hpos, hvalue]
    exact round_rounds (by omega) e .positive

/-- A mantissa over a smaller exponent, with its sign as an integer. -/
theorem apply_decreaseExponent (s : Sign) (m : ℕ) {e target : ℤ} (h : target ≤ e) :
    ((s.apply ((decreaseExponent m e target).1 : ℤ) : ℤ) : ℝ) * 2 ^ target = signed s (m * 2 ^ e) := by
  obtain ⟨n, rfl⟩ := Int.exists_add_of_le h
  have hshift : (target + n - target).toNat = n := by omega
  have hvalue : ((m <<< n : ℕ) : ℝ) * 2 ^ target = m * 2 ^ (target + n) := by
    rw [Nat.shiftLeft_eq, zpow_add₀ two_ne_zero, zpow_natCast]
    push_cast
    ring
  unfold decreaseExponent
  rw [hshift, ← hvalue]
  cases s with
  | positive => rfl
  | negative =>
      show ((-((m <<< n : ℕ) : ℤ) : ℤ) : ℝ) * 2 ^ target = -(((m <<< n : ℕ) : ℝ) * 2 ^ target)
      rw [Int.cast_neg, Int.cast_natCast, neg_mul]

variable (hx : InFormat format x) (hxfinite : x.isFinite = true) (hy : InFormat format y)
  (hyfinite : y.isFinite = true)

include hx hxfinite hy hyfinite

theorem mul_rounds : Rounds format (value x * value y) (UnpackedFloat.mul format x y) := by
  cases x with
  | notANumber => cases hxfinite
  | infinity s => cases hxfinite
  | zero s =>
      have hproduct : value (.zero s) * value y = 0 := zero_mul _
      rw [hproduct]
      cases y with
      | notANumber => cases hyfinite
      | infinity s' => cases hyfinite
      | zero s' => exact rounds_zero _
      | finite s' m' e' hm' => exact rounds_zero _
  | finite s m e hm =>
      cases y with
      | notANumber => cases hyfinite
      | infinity s' => cases hyfinite
      | zero s' =>
          have hproduct : value (.finite s m e hm) * value (.zero s') = 0 := mul_zero _
          rw [hproduct]
          exact rounds_zero _
      | finite s' m' e' hm' =>
          have hproduct : value (.finite s m e hm) * value (.finite s' m' e' hm') =
              signed (s * s') ((m * m' : ℕ) * 2 ^ (e + e')) := by
            have hmagnitude : ((m * m' : ℕ) : ℝ) * 2 ^ (e + e') = m * 2 ^ e * (m' * 2 ^ e') := by
              rw [zpow_add₀ two_ne_zero]
              push_cast
              ring
            rw [hmagnitude, signed_mul]
            rfl
          have hexact : Describes (m * m') ((m * m' : ℕ) : ℝ) .exact := rfl
          rw [hproduct]
          refine roundWithAccuracy_rounds hexact (le_targetExponent ?_) (s * s')
          have hnonpos := minExponent_nonpos format
          have hpos : m * m' ≠ 0 := (Nat.mul_pos hm hm').ne'
          rcases hx.log2 hm with hlong | he
          · left
            have hle : m ≤ m * m' := Nat.le_mul_of_pos_right m hm'
            exact (Nat.le_log2 hpos).mpr (((Nat.le_log2 hm.ne').mp hlong).trans hle)
          · rcases hy.log2 hm' with hlong | he'
            · left
              have hle : m' ≤ m * m' := Nat.le_mul_of_pos_left m' hm
              exact (Nat.le_log2 hpos).mpr (((Nat.le_log2 hm'.ne').mp hlong).trans hle)
            · right
              omega

theorem add_rounds : Rounds format (value x + value y) (UnpackedFloat.add format x y) := by
  cases x with
  | notANumber => cases hxfinite
  | infinity s => cases hxfinite
  | zero s =>
      have hsum : value (.zero s) + value y = value y := zero_add _
      rw [hsum]
      cases y with
      | notANumber => cases hyfinite
      | infinity s' => cases hyfinite
      | zero s' =>
          show Rounds format 0 (if s == s' then .zero s else .zero .positive)
          split
          · exact rounds_zero s
          · exact rounds_zero .positive
      | finite s' m' e' hm' => exact hy.rounds_self rfl
  | finite s m e hm =>
      cases y with
      | notANumber => cases hyfinite
      | infinity s' => cases hyfinite
      | zero s' =>
          have hsum : value (.finite s m e hm) + value (.zero s') = value (.finite s m e hm) :=
            add_zero _
          rw [hsum]
          exact hx.rounds_self rfl
      | finite s' m' e' hm' =>
          have hleft := apply_decreaseExponent s m (min_le_left e e')
          have hright := apply_decreaseExponent s' m' (min_le_right e e')
          have hsum : value (.finite s m e hm) + value (.finite s' m' e' hm') =
              ((s.apply ((decreaseExponent m e (min e e')).1 : ℤ) +
                s'.apply ((decreaseExponent m' e' (min e e')).1 : ℤ) : ℤ) : ℝ) * 2 ^ min e e' := by
            rw [Int.cast_add, add_mul, hleft, hright]
            rfl
          rw [hsum]
          exact normalize_rounds _ _ .positive

end Rounds

/-! ### Quotients -/

section Quotient

/-- What is known of a fraction of a unit describes it. -/
theorem describes_fraction (q : ℕ) {numerator denominator : ℕ} (h : numerator < denominator) :
    Describes q (q + numerator / denominator : ℝ) (accuracyOfFraction numerator denominator) := by
  have hpositive : (0 : ℝ) < denominator := by exact_mod_cast Nat.zero_lt_of_lt h
  unfold accuracyOfFraction
  split
  · rename_i hzero
    show (q : ℝ) + numerator / denominator = q
    rw [hzero, Nat.cast_zero, zero_div, add_zero]
  · rename_i hnonzero
    have hnumerator : (0 : ℝ) < numerator / denominator :=
      div_pos (by exact_mod_cast Nat.pos_of_ne_zero hnonzero) hpositive
    rcases lt_trichotomy (2 * numerator) denominator with hlt | heq | hgt
    · rw [compare_lt_iff_lt.mpr hlt]
      have hlt : (2 * numerator : ℝ) < denominator := by exact_mod_cast hlt
      have hhalf : (numerator : ℝ) / denominator < 1 / 2 := by
        rw [div_lt_iff₀ hpositive]
        linarith
      constructor <;> linarith
    · rw [compare_eq_iff_eq.mpr heq]
      have heq : (2 * numerator : ℝ) = denominator := by exact_mod_cast heq
      have hhalf : (numerator : ℝ) / denominator = 1 / 2 := by
        rw [div_eq_iff hpositive.ne']
        linarith
      show (q : ℝ) + numerator / denominator - q = q + 1 - (q + numerator / denominator)
      linarith
    · rw [compare_gt_iff_gt.mpr hgt]
      have hgt : (denominator : ℝ) < 2 * numerator := by exact_mod_cast hgt
      have hbelow : (numerator : ℝ) / denominator < 1 :=
        (div_lt_one hpositive).mpr (by exact_mod_cast h)
      have hhalf : 1 / 2 < (numerator : ℝ) / denominator := by
        rw [lt_div_iff₀ hpositive]
        linarith
      constructor <;> linarith

variable {m m' : ℕ} {e e' : ℤ}

/-- The quotient of the shifted mantissas is long enough. -/
theorem le_targetExponent_div (hm : 0 < m) (hm' : 0 < m') {n : ℕ} {t : ℤ} (hshift : t + n = e - e')
    (ht : t ≤ format.targetExponent (totalExponent m e - totalExponent m' e')) :
    t ≤ format.targetExponent (totalExponent ((m <<< n) / m') t) := by
  refine ht.trans (targetExponent_mono ?_)
  unfold totalExponent
  by_cases hlong : m'.log2 + 1 ≤ m.log2 + n
  · obtain ⟨d, hd⟩ := Nat.exists_eq_add_of_le hlong
    have hquotient : 2 ^ d ≤ (m <<< n) / m' := by
      rw [Nat.le_div_iff_mul_le hm', Nat.shiftLeft_eq]
      calc 2 ^ d * m' ≤ 2 ^ d * 2 ^ (m'.log2 + 1) :=
            Nat.mul_le_mul_left _ Nat.lt_log2_self.le
        _ = 2 ^ m.log2 * 2 ^ n := by
            rw [← Nat.pow_add, ← Nat.pow_add, hd, Nat.add_comm]
        _ ≤ m * 2 ^ n := Nat.mul_le_mul_right _ (Nat.log2_self_le hm.ne')
    have hnonzero : (m <<< n) / m' ≠ 0 := (Nat.two_pow_pos d).trans_le hquotient |>.ne'
    have hlog := (Nat.le_log2 hnonzero).mpr hquotient
    omega
  · omega

/-- The quotient in units of the exponent that it is computed for. -/
theorem quotient_eq (hm' : 0 < m') {n : ℕ} {t : ℤ} (hshift : t + n = e - e') :
    (((m <<< n) / m' : ℕ) + ((m <<< n) % m' : ℕ) / m' : ℝ) * 2 ^ t =
      m * 2 ^ e / (m' * 2 ^ e') := by
  have hpositive : (m' : ℝ) ≠ 0 := by exact_mod_cast hm'.ne'
  have hmod : ((m <<< n : ℕ) : ℝ) = m' * ((m <<< n) / m' : ℕ) + ((m <<< n) % m' : ℕ) := by
    exact_mod_cast (Nat.div_add_mod (m <<< n) m').symm
  have hexponent : (2 : ℝ) ^ e = 2 ^ t * 2 ^ n * 2 ^ e' := by
    rw [← zpow_natCast, ← zpow_add₀ two_ne_zero, ← zpow_add₀ two_ne_zero]
    congr 1
    omega
  have hfraction : (((m <<< n) / m' : ℕ) + ((m <<< n) % m' : ℕ) / m' : ℝ) = (m <<< n : ℕ) / m' := by
    rw [eq_div_iff hpositive, add_mul, div_mul_cancel₀ _ hpositive, hmod]
    ring
  rw [hfraction, hexponent, Nat.shiftLeft_eq]
  push_cast
  field_simp

theorem div_rounds {x y : UnpackedFloat} (hxfinite : x.isFinite = true)
    (hyfinite : y.isFinite = true) (hnonzero : value y ≠ 0) :
    Rounds format (value x / value y) (UnpackedFloat.div format x y) := by
  cases y with
  | notANumber => cases hyfinite
  | infinity s' => cases hyfinite
  | zero s' => exact absurd rfl hnonzero
  | finite s' m' e' hm' =>
      cases x with
      | notANumber => cases hxfinite
      | infinity s => cases hxfinite
      | zero s =>
          have hquotient : value (.zero s) / value (.finite s' m' e' hm') = 0 := zero_div _
          rw [hquotient]
          exact rounds_zero _
      | finite s m e hm =>
          generalize htarget : min (e - e')
            (format.targetExponent (totalExponent m e - totalExponent m' e')) = t
          have hle : t ≤ e - e' := htarget ▸ min_le_left _ _
          obtain ⟨n, hn⟩ := Int.exists_add_of_le hle
          have hshift : (e - e' - t).toNat = n := by omega
          have hdiv : UnpackedFloat.div format (.finite s m e hm) (.finite s' m' e' hm') =
              roundWithAccuracy format (s / s') ((m <<< n) / m') t
                (accuracyOfFraction ((m <<< n) % m') m') := by
            simp only [UnpackedFloat.div, divCore, htarget, hshift]
          have hquotient : value (.finite s m e hm) / value (.finite s' m' e' hm') =
              signed (s / s') ((((m <<< n) / m' : ℕ) + ((m <<< n) % m' : ℕ) / m' : ℝ) * 2 ^ t) := by
            have hmagnitude := quotient_eq (m := m) hm' hn.symm
            rw [hmagnitude, signed_div]
            rfl
          rw [hdiv, hquotient]
          refine roundWithAccuracy_rounds (describes_fraction _ (Nat.mod_lt _ hm')) ?_ (s / s')
          exact le_targetExponent_div hm hm' hn.symm (htarget ▸ min_le_right _ _)

end Quotient

/-! ### Square roots -/

section Root

/-- What is left over after the integer root describes the root. -/
theorem describes_sqrt (m : ℕ) :
    Describes (Nat.sqrt m) (√m)
      (if m - Nat.sqrt m * Nat.sqrt m = 0 then .exact
        else .inexact (if m - Nat.sqrt m * Nat.sqrt m ≤ Nat.sqrt m then .lt else .gt)) := by
  have hbelow := Nat.sqrt_le m
  have habove := Nat.lt_succ_sqrt m
  generalize Nat.sqrt m = r at hbelow habove ⊢
  have hnonneg : (0 : ℝ) ≤ r := Nat.cast_nonneg r
  have hlower : r * r + 1 ≤ m → (r : ℝ) < √m := fun hle => by
    have hle : (r * r + 1 : ℝ) ≤ m := by exact_mod_cast hle
    rw [Real.lt_sqrt hnonneg]
    linarith
  split
  · rename_i hzero
    have hsquare : (m : ℝ) = r * r := by
      have hm : m = r * r := by omega
      exact_mod_cast hm
    show √(m : ℝ) = r
    rw [hsquare, Real.sqrt_mul_self hnonneg]
  · rename_i hnonzero
    split
    · rename_i hsmall
      have hle : (m : ℝ) ≤ r * r + r := by
        have hm : m ≤ r * r + r := by omega
        exact_mod_cast hm
      have hhalf : √(m : ℝ) < r + 1 / 2 := by
        rw [Real.sqrt_lt' (by linarith)]
        linarith
      exact ⟨hlower (by omega), by linarith⟩
    · rename_i hlarge
      have hge : (r * r + r + 1 : ℝ) ≤ m := by
        have hm : r * r + r + 1 ≤ m := by omega
        exact_mod_cast hm
      have hlt : (m : ℝ) < (r + 1) * (r + 1) := by exact_mod_cast habove
      have hhalf : r + 1 / 2 < √(m : ℝ) := by
        rw [Real.lt_sqrt (by linarith)]
        linarith
      have hnext : √(m : ℝ) < r + 1 := by
        rw [Real.sqrt_lt' (by linarith)]
        linarith
      exact ⟨by linarith, hnext⟩

/-- The root of the shifted mantissa is long enough. -/
theorem le_targetExponent_sqrt {m n : ℕ} (hm : 0 < m) {e t : ℤ} (hshift : 2 * t + n = e)
    (ht : t ≤ format.targetExponent ((totalExponent m e + 1) / 2)) :
    t ≤ format.targetExponent (totalExponent (Nat.sqrt (m <<< n)) t) := by
  refine ht.trans (targetExponent_mono ?_)
  have hlog := log2_shiftLeft hm n
  have hroot : 2 ^ ((m.log2 + n) / 2) ≤ Nat.sqrt (m <<< n) := by
    rw [Nat.le_sqrt, ← Nat.pow_add]
    refine le_trans (Nat.pow_le_pow_right Nat.two_pos ?_) (Nat.log2_self_le ?_)
    · rw [hlog]
      omega
    · rw [Nat.shiftLeft_eq]
      exact (Nat.mul_pos hm (Nat.two_pow_pos n)).ne'
  have hlength := (Nat.le_log2 ((Nat.two_pow_pos _).trans_le hroot).ne').mpr hroot
  unfold totalExponent
  omega

variable {x : UnpackedFloat}

theorem sqrt_rounds (hfinite : x.isFinite = true) (hnonneg : 0 ≤ value x) :
    Rounds format (√(value x)) (UnpackedFloat.sqrt format x) := by
  cases x with
  | notANumber => cases hfinite
  | infinity s => cases hfinite
  | zero s =>
      have hroot : √(value (.zero s)) = 0 := Real.sqrt_zero
      rw [hroot]
      exact rounds_zero s
  | finite s m e hm =>
      have hmantissa : (0 : ℝ) < m := by exact_mod_cast hm
      have hpositive : (0 : ℝ) < m * 2 ^ e := by positivity
      cases s with
      | negative =>
          have hneg : value (.finite .negative m e hm) = -(m * 2 ^ e) := rfl
          rw [hneg] at hnonneg
          linarith
      | positive =>
          generalize htarget : min (e / 2)
            (format.targetExponent ((totalExponent m e + 1) / 2)) = t
          have hle : t ≤ e / 2 := htarget ▸ min_le_left _ _
          obtain ⟨n, hn⟩ := Int.exists_add_of_le (show 2 * t ≤ e by omega)
          have hshift : (e - 2 * t).toNat = n := by omega
          have hsqrt : UnpackedFloat.sqrt format (.finite .positive m e hm) =
              roundWithAccuracy format .positive (Nat.sqrt (m <<< n)) t
                (if m <<< n - Nat.sqrt (m <<< n) * Nat.sqrt (m <<< n) = 0 then .exact
                else .inexact (if m <<< n - Nat.sqrt (m <<< n) * Nat.sqrt (m <<< n) ≤
                  Nat.sqrt (m <<< n) then .lt else .gt)) := by
            have hcore : min (e.ediv 2) (format.targetExponent ((totalExponent m e + 1).ediv 2)) = t :=
              htarget
            simp only [UnpackedFloat.sqrt, sqrtCore, hcore, hshift]
          have hroot : √(value (.finite .positive m e hm)) =
              signed .positive (√((m <<< n : ℕ) : ℝ) * 2 ^ t) := by
            have hsquare : (m : ℝ) * 2 ^ e = (m <<< n : ℕ) * (2 ^ t * 2 ^ t) := by
              rw [hn, Nat.shiftLeft_eq, zpow_add₀ two_ne_zero, two_mul, zpow_add₀ two_ne_zero,
                zpow_natCast]
              push_cast
              ring
            show √((m : ℝ) * 2 ^ e) = √((m <<< n : ℕ) : ℝ) * 2 ^ t
            rw [hsquare, Real.sqrt_mul (Nat.cast_nonneg _), Real.sqrt_mul_self (by positivity)]
          rw [hsqrt, hroot]
          refine roundWithAccuracy_rounds (describes_sqrt _) ?_ .positive
          exact le_targetExponent_sqrt hm hn.symm (htarget ▸ min_le_right _ _)

end Root

/-! ### Counts and decimals -/

section Counts

theorem rounds_ofNat (n : ℕ) : Rounds format n (UnpackedFloat.ofNat format n) := by
  have h : Rounds format (((n : ℤ) : ℝ) * 2 ^ (0 : ℤ)) (UnpackedFloat.ofNat format n) :=
    normalize_rounds n 0 .positive
  rwa [zpow_zero, mul_one, Int.cast_natCast] at h

/-- A mantissa times a power of ten is exact before it is rounded, and has more bits than the format. -/
theorem rounds_decimal_product {m : ℕ} (hm : 0 < m) (n : ℕ) :
    Rounds format (m * 10 ^ n) (roundWithAccuracy format .positive
      (m <<< format.mantissaBits * 10 ^ n) (-(format.mantissaBits : ℤ)) .exact) := by
  have hpower : 0 < 10 ^ n := Nat.pow_pos (by decide)
  have hexact : Describes (m <<< format.mantissaBits * 10 ^ n)
      ((m <<< format.mantissaBits * 10 ^ n : ℕ) : ℝ) .exact := rfl
  have hvalue : (m : ℝ) * 10 ^ n = signed .positive
      ((m <<< format.mantissaBits * 10 ^ n : ℕ) * 2 ^ (-(format.mantissaBits : ℤ))) := by
    show (m : ℝ) * 10 ^ n =
      (m <<< format.mantissaBits * 10 ^ n : ℕ) * 2 ^ (-(format.mantissaBits : ℤ))
    rw [Nat.shiftLeft_eq, zpow_neg, zpow_natCast]
    push_cast
    field_simp
  have hlong : 2 ^ format.mantissaBitsWithoutImplicit ≤ m <<< format.mantissaBits * 10 ^ n := by
    calc 2 ^ format.mantissaBitsWithoutImplicit ≤ 2 ^ format.mantissaBits :=
          Nat.pow_le_pow_right Nat.two_pos (by rw [mantissaBits_eq]; omega)
      _ ≤ m <<< format.mantissaBits := by
          rw [Nat.shiftLeft_eq]
          exact Nat.le_mul_of_pos_left _ hm
      _ ≤ m <<< format.mantissaBits * 10 ^ n := Nat.le_mul_of_pos_right _ hpower
  have hnonzero : m <<< format.mantissaBits * 10 ^ n ≠ 0 := ((Nat.two_pow_pos _).trans_le hlong).ne'
  rw [hvalue]
  exact roundWithAccuracy_rounds hexact
    (le_targetExponent (.inl ((Nat.le_log2 hnonzero).mpr hlong))) .positive

/-- A mantissa over a power of ten is a quotient of two floats. -/
theorem rounds_decimal_quotient {m : ℕ} (hm : 0 < m) {n : ℕ} (hn : 0 < 10 ^ n) :
    Rounds format (m / 10 ^ n)
      (UnpackedFloat.div format (.finite .positive m 0 hm) (.finite .positive (10 ^ n) 0 hn)) := by
  have hdivisor : value (.finite .positive (10 ^ n) 0 hn) = 10 ^ n := by
    simp [value_finite, signed]
  have hdividend : value (.finite .positive m 0 hm) = m := by
    simp [value_finite, signed]
  have hnonzero : value (.finite .positive (10 ^ n) 0 hn) ≠ 0 := by
    rw [hdivisor]
    positivity
  rw [← hdividend, ← hdivisor]
  exact div_rounds rfl rfl hnonzero

/-- A decimal is rounded, unless its exponent is so far outside the range of the format that it is not
looked at. -/
theorem rounds_decimal {m : ℕ} {e : ℤ} (hlarge : e ≤ 2 ^ format.exponentBits)
    (hsmall : -(2 ^ format.exponentBits + m.log2) ≤ e) :
    Rounds format (m * 10 ^ e) (UnpackedFloat.ofScientific format m e) := by
  unfold UnpackedFloat.ofScientific
  split
  · rename_i hzero
    rw [hzero, Nat.cast_zero, zero_mul]
    exact rounds_zero .positive
  · rename_i hnonzero
    have hpositive := Nat.pos_of_ne_zero hnonzero
    rw [if_neg (by omega), if_neg (by omega)]
    split
    · rename_i hnonneg
      obtain ⟨n, rfl⟩ := Int.eq_ofNat_of_zero_le hnonneg
      rw [zpow_natCast]
      show Rounds format _ (roundWithAccuracy format .positive
        (m <<< format.mantissaBits * 10 ^ n) (-(format.mantissaBits : ℤ) + 0) .exact)
      rw [Int.add_zero]
      exact rounds_decimal_product hpositive n
    · rename_i hnegative
      obtain ⟨n, hn⟩ := Int.eq_ofNat_of_zero_le (show 0 ≤ -e by omega)
      obtain rfl : e = -(n : ℤ) := by omega
      have hpower : (-(-(n : ℤ))).toNat = n := by omega
      simp only [hpower]
      rw [zpow_neg, zpow_natCast, ← div_eq_mul_inv]
      exact rounds_decimal_quotient hpositive _

theorem rounds_ofScientific (n : ℕ) : Rounds format n (UnpackedFloat.ofScientific format n 0) := by
  have hpower : (0 : ℤ) < 2 ^ format.exponentBits := by positivity
  have h : Rounds format (n * 10 ^ (0 : ℤ)) (UnpackedFloat.ofScientific format n 0) :=
    rounds_decimal (by omega) (by omega)
  rwa [zpow_zero, mul_one] at h

end Counts

end LeastSquares.Floating
