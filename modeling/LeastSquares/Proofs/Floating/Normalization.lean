import LeastSquares.Descent
import LeastSquares.Tree.Lemmas
import LeastSquares.Proofs.Floating.Norms

/-!
# Directions of unit length in double precision

A direction is brought to unit length by the reciprocal of its norm. The norm is tested for being above
zero and finite, the reciprocal is not tested. It is finite for every norm above a certain power of two,
and then no leaf becomes infinite, since none is far above the norm. The norms that square their leaves
are never as small as that power of two unless they are zero. The largest magnitude can be, and then
every leaf is lost (`compute_finite_iff`).
-/

namespace LeastSquares

open Scalar Scalar.Binary Floating

section Reciprocal

variable {x y size : Float}

/-- The next number after the power of two. -/
theorem next_le_toReal (hlarge : (2 : ℝ) ^ (-1024 : ℤ) < toReal x) :
    ((2 ^ 50 + 1 : ℤ) : ℝ) * 2 ^ (-1074 : ℤ) ≤ toReal x := by
  obtain ⟨n, hn⟩ := (representable_toReal x).exists_multiple
  rw [minExponent_double] at hn
  rw [hn, show (-1024 : ℤ) = 50 + -1074 by omega, zpow_add₀ two_ne_zero] at hlarge
  have hlt : (2 : ℝ) ^ (50 : ℤ) < n := lt_of_mul_lt_mul_right hlarge (by positivity)
  have hnext : 2 ^ 50 + 1 ≤ n := by exact_mod_cast hlt
  rw [hn]
  exact mul_le_mul_of_nonneg_right (by exact_mod_cast hnext) (by positivity)

/-- Its reciprocal is not above the largest number of the format. -/
theorem isFinite_reciprocal (hx : isFinite x = true) (hlarge : (2 : ℝ) ^ (-1024 : ℤ) < toReal x) :
    isFinite (1 / x) = true := by
  have hpos : 0 < toReal x := lt_trans (by positivity) hlarge
  have hrounded := div_isRounded isFinite_one hx hpos.ne'
  rw [toReal_one] at hrounded
  have hlargest : Representable (format Float) (((2 ^ 53 - 1 : ℕ) : ℝ) * 2 ^ (971 : ℤ)) :=
    .natCast_mul (by decide) (by decide)
  have hpower : (2 : ℝ) ^ (971 : ℤ) * 2 ^ (-1074 : ℤ) = 2 ^ (-103 : ℤ) := by
    rw [← zpow_add₀ two_ne_zero]
    norm_num
  refine hrounded.isFinite hlargest ?_ ?_
  · rw [abs_of_pos (one_div_pos.mpr hpos), div_le_iff₀ hpos]
    calc (1 : ℝ) ≤ ((2 ^ 53 - 1 : ℕ) : ℝ) * ((2 ^ 50 + 1 : ℤ) : ℝ) * 2 ^ (-103 : ℤ) := by norm_num
      _ = ((2 ^ 53 - 1 : ℕ) : ℝ) * 2 ^ (971 : ℤ) * (((2 ^ 50 + 1 : ℤ) : ℝ) * 2 ^ (-1074 : ℤ)) := by
          rw [← hpower]
          ring
      _ ≤ ((2 ^ 53 - 1 : ℕ) : ℝ) * 2 ^ (971 : ℤ) * toReal x :=
          mul_le_mul_of_nonneg_left (next_le_toReal hlarge) (by positivity)
  · calc ((2 ^ 53 - 1 : ℕ) : ℝ) * 2 ^ (971 : ℤ) < 2 ^ (53 : ℤ) * 2 ^ (971 : ℤ) :=
          mul_lt_mul_of_pos_right (by norm_num) (by positivity)
      _ = limit (format Float) := by
          rw [limit_double, ← zpow_add₀ two_ne_zero]
          norm_num

/-- The reciprocals that are too large are those of the numbers up to a power of two. -/
theorem isFinite_reciprocal_iff (hx : isFinite x = true) (hpos : 0 < toReal x) :
    isFinite (1 / x) = true ↔ (2 : ℝ) ^ (-1024 : ℤ) < toReal x := by
  refine ⟨fun hfinite => ?_, isFinite_reciprocal hx⟩
  by_contra hsmall
  have hrounded := div_isRounded isFinite_one hx hpos.ne'
  rw [toReal_one] at hrounded
  obtain ⟨r, hr, hlimit, -, -⟩ := hrounded.exists_nearest
  have hlarge : (2 : ℝ) ^ (1024 : ℤ) ≤ r := by
    refine hr.ge (representable_two_zpow (by omega)) ?_
    rw [le_div_iff₀ hpos]
    calc (2 : ℝ) ^ (1024 : ℤ) * toReal x ≤ 2 ^ (1024 : ℤ) * 2 ^ (-1024 : ℤ) :=
          mul_le_mul_of_nonneg_left (not_lt.mp hsmall) (by positivity)
      _ = 1 := by rw [← zpow_add₀ two_ne_zero, add_neg_cancel, zpow_zero]
  have hlt := hlimit.mp hfinite
  rw [limit_double] at hlt
  exact absurd (hlarge.trans (le_abs_self r)) (not_le.mpr hlt)

/-- A leaf that is not far above a size stays finite when it is divided by that size. -/
theorem isFinite_reciprocal_mul (hsize : isFinite size = true) (hpos : 0 < toReal size)
    (hreciprocal : isFinite (1 / size) = true) (hx : isFinite x = true)
    (hle : |toReal x| ≤ 2 ^ (34 : ℤ) * toReal size) : isFinite (1 / size * x) = true := by
  obtain ⟨j, hge, hlt⟩ := exists_mem_Ico_zpow hpos (one_lt_two (α := ℝ))
  have hj : j < 1024 := by
    have hbelow := hge.trans_lt (lt_of_abs_lt (abs_toReal_lt size))
    rw [limit_double] at hbelow
    exact (zpow_lt_zpow_iff_right₀ one_lt_two).mp hbelow
  have hrounded := div_isRounded isFinite_one hsize hpos.ne'
  rw [toReal_one] at hrounded
  have hquotient : 1 / toReal size ≤ 2 ^ (-j) := by
    rw [zpow_neg, ← one_div]
    exact one_div_le_one_div_of_le (by positivity) hge
  have hnonneg : 0 ≤ toReal (1 / size) := hrounded.ge .zero hreciprocal (by positivity)
  have hreciprocal_le : toReal (1 / size) ≤ 2 ^ (-j) :=
    hrounded.le (representable_two_zpow (by omega)) hreciprocal hquotient
  refine (mul_isRounded hreciprocal hx).isFinite (representable_two_zpow (j := 35) (by omega)) ?_
    (two_zpow_lt_limit (by omega))
  rw [abs_mul, abs_of_nonneg hnonneg]
  calc toReal (1 / size) * |toReal x| ≤ 2 ^ (-j) * (2 ^ (34 : ℤ) * 2 ^ (j + 1)) :=
        mul_le_mul hreciprocal_le
          (hle.trans (mul_le_mul_of_nonneg_left hlt.le (by positivity))) (abs_nonneg _) (by positivity)
    _ = 2 ^ (35 : ℤ) := by
        rw [← zpow_add₀ two_ne_zero, ← zpow_add₀ two_ne_zero]
        congr 1
        omega

/-- What is at most one in magnitude is finite. -/
theorem isFinite_of_abs_le_one (h : le (Scalar.abs x) 1 = true) : isFinite x = true := by
  obtain ⟨hone, hvalue⟩ := one_eq (α := Float)
  rw [le_iff, unpacked_abs, hvalue] at h
  rw [isFinite_eq]
  generalize unpacked x = u at h ⊢
  cases u with
  | finite s m e hm => rfl
  | zero s => rfl
  | infinity s => cases h
  | notANumber => cases h

/-- A factor of at most one in magnitude takes no finite number out of range, and brings no other
back. -/
theorem isFinite_neg_mul_iff (h : le (Scalar.abs x) 1 = true) :
    isFinite (-x * y) = true ↔ isFinite y = true := by
  have hx := isFinite_of_abs_le_one h
  rw [le_iff_toReal ((isFinite_abs x).trans hx) isFinite_one, toReal_abs, toReal_one] at h
  refine ⟨fun hproduct => (isFinite_of_mul hproduct).2, fun hy => ?_⟩
  refine (mul_isRounded ((isFinite_neg x).trans hx) hy).isFinite_of_abs_le (x := y) ?_
  rw [toReal_neg, abs_mul, abs_neg]
  exact mul_le_of_le_one_left (abs_nonneg _) h

end Reciprocal

namespace NewtonDescent

variable {κ : Type} {norm : Norm Float} {newton : Tree κ Float}

/-- The largest magnitude is above zero and so small that its reciprocal is too large. -/
structure LosesLength (norm : Norm Float) (newton : Tree κ Float) : Prop where
  norm_eq : norm = .max
  pos : 0 < toReal (norm.apply newton)
  tiny : toReal (norm.apply newton) ≤ 2 ^ (-1024 : ℤ)

variable (hall : ∀ x ∈ newton.leaves, isFinite x = true)

include hall

/-- A largest magnitude above zero is the magnitude of a leaf, and every leaf is multiplied by the
reciprocal. -/
theorem exists_lost (hlost : LosesLength norm newton) :
    lt 0 (norm.apply newton) = true ∧ isFinite (norm.apply newton) = true ∧
      ∃ x ∈ newton.leaves, ¬isFinite (1 / norm.apply newton * x) = true := by
  obtain ⟨rfl, hpos, hsmall⟩ := hlost
  have hfinite : isFinite ((Norm.max : Norm Float).apply newton) = true :=
    isFinite_maxMagnitude hall
  have hne : newton.leaves ≠ [] := by
    intro hempty
    rw [Norm.apply, hempty] at hpos
    exact absurd hpos (not_lt.mpr toReal_zero.le)
  obtain ⟨x, hx⟩ := List.exists_mem_of_ne_nil newton.leaves hne
  refine ⟨(zero_lt_iff_toReal hfinite).mpr hpos, hfinite, x, hx, ?_⟩
  intro hproduct
  have hreciprocal := (isFinite_of_mul hproduct).1
  exact not_lt.mpr hsmall ((isFinite_reciprocal_iff hfinite hpos).mp hreciprocal)

/-- Otherwise every leaf is multiplied by a finite reciprocal, or left as it is. -/
theorem normalize_finite (hnorm : norm.IsBuiltIn) (hcount : newton.leaves.length < 2 ^ 64)
    (hkept : ¬LosesLength norm newton) :
    ∀ x ∈ (normalize (some norm) newton).leaves, isFinite x = true := by
  by_cases hguard : (lt 0 (norm.apply newton) && isFinite (norm.apply newton)) = true
  · obtain ⟨hlt, hfinite⟩ := Bool.and_eq_true_iff.mp hguard
    have hpos := (zero_lt_iff_toReal hfinite).mp hlt
    have hreciprocal : isFinite (1 / norm.apply newton) = true := by
      refine isFinite_reciprocal hfinite ?_
      cases norm with
      | max => exact not_le.mp fun hsmall => hkept ⟨rfl, hpos, hsmall⟩
      | rms =>
          exact (zpow_lt_zpow_right₀ one_lt_two (by omega)).trans_le
            (ofLeaves_ge hall hcount hfinite hpos (.inl rfl))
      | two =>
          exact (zpow_lt_zpow_right₀ one_lt_two (by omega)).trans_le
            (ofLeaves_ge hall hcount hfinite hpos (.inr rfl))
      | custom measure => exact hnorm.elim
    have hscaled : normalize (some norm) newton = newton.scale (1 / norm.apply newton) := if_pos hguard
    rw [hscaled, Tree.leaves_scale]
    intro y hy
    obtain ⟨x, hx, rfl⟩ := List.mem_map.mp hy
    exact isFinite_reciprocal_mul hfinite hpos hreciprocal (hall x hx)
      (abs_le_mul_ofLeaves hall hcount hfinite hpos hnorm hx)
  · have hsame : normalize (some norm) newton = newton := if_neg hguard
    rw [hsame]
    exact hall

theorem normalize_finite_iff (hnorm : norm.IsBuiltIn) (hcount : newton.leaves.length < 2 ^ 64) :
    (∀ x ∈ (normalize (some norm) newton).leaves, isFinite x = true) ↔ ¬LosesLength norm newton := by
  refine ⟨fun hkept hlost => ?_, normalize_finite hall hnorm hcount⟩
  obtain ⟨hlt, hfinite, x, hx, hproduct⟩ := exists_lost hall hlost
  have hscaled : normalize (some norm) newton = newton.scale (1 / norm.apply newton) :=
    if_pos (Bool.and_eq_true_iff.mpr ⟨hlt, hfinite⟩)
  rw [hscaled, Tree.leaves_scale] at hkept
  exact hproduct (hkept _ (List.mem_map_of_mem hx))

omit hall

/-- **Unit length.** A step of a finite direction along one of the norms of this library, of a size of at
most one, has finite leaves, unless the norm is the largest magnitude and that is above zero but not
above a certain power of two. Then there is a leaf that is not finite. The leaves are counted in 64
bits. -/
theorem compute_finite_iff [Dense.Kernels Float] {descent : NewtonDescent Float}
    (hdescent : descent.norm = some norm) (hnorm : norm.IsBuiltIn) {options : DescentOptions κ Float}
    (hsolved : descent.direction options = .ok ⟨newton, .successful⟩)
    (hall : ∀ x ∈ newton.leaves, isFinite x = true) (hcount : newton.leaves.length < countLimit)
    {stepSize : Float} (hstep : le (Scalar.abs stepSize) 1 = true) :
    ∃ diff, descent.compute stepSize options = .ok ⟨diff, .successful⟩ ∧
      ((∀ x ∈ diff.leaves, isFinite x = true) ↔ ¬LosesLength norm newton) := by
  refine ⟨(normalize (some norm) newton).scale (-stepSize), ?_, ?_⟩
  · rw [compute, hsolved, hdescent]
    rfl
  · rw [Tree.leaves_scale, List.forall_mem_map]
    simp only [isFinite_neg_mul_iff hstep, normalize_finite_iff hall hnorm hcount]

/-- The smallest number above zero. -/
def smallest : Tree Unit Float := .scalar (Float.ofBits 1)

/-- A system that is solved by its own right-hand side. -/
def atSmallest : DescentOptions Unit Float :=
  { vector := some smallest
    inverse := some (.ofFunction (fun t => .ok t) smallest smallest {}) }

/-- The largest magnitude is the smallest number, and the root of its square is zero. -/
theorem compute_finite_iff_smallest :
    (∃ diff, NewtonDescent.compute { norm := some .max } 1 atSmallest = .ok ⟨diff, .successful⟩ ∧
        ¬∀ x ∈ diff.leaves, isFinite x = true) ∧
      ∃ diff, NewtonDescent.compute { norm := some .two } 1 atSmallest = .ok ⟨diff, .successful⟩ ∧
        ∀ x ∈ diff.leaves, isFinite x = true := by
  have hfinite : ∀ x ∈ smallest.leaves, isFinite x = true := by decide +kernel
  have hstep : le (Scalar.abs (1 : Float)) 1 = true := by decide +kernel
  have hvalue : toReal ((Norm.max : Norm Float).apply smallest) = 2 ^ (-1074 : ℤ) := by
    have hsize : (Norm.max : Norm Float).apply smallest = Float.ofBits 1 := by decide +kernel
    have hunpacked : unpacked (Float.ofBits 1) = .finite .positive 1 (-1074) one_pos := rfl
    rw [hsize, toReal, hunpacked, value_finite, signed, Nat.cast_one, one_mul]
  have hsolved (norm : Norm Float) : direction { norm := some norm } atSmallest =
      .ok ⟨smallest, .successful⟩ := rfl
  constructor
  · obtain ⟨diff, hcompute, hiff⟩ :=
      compute_finite_iff rfl (show Norm.max.IsBuiltIn from trivial) (hsolved .max) hfinite
        (by decide) hstep
    refine ⟨diff, hcompute, fun hall => hiff.mp hall ⟨rfl, ?_, ?_⟩⟩
    · rw [hvalue]
      positivity
    · rw [hvalue]
      exact zpow_le_zpow_right₀ one_le_two (by omega)
  · obtain ⟨diff, hcompute, hiff⟩ :=
      compute_finite_iff rfl (show Norm.two.IsBuiltIn from trivial) (hsolved .two) hfinite
        (by decide) hstep
    refine ⟨diff, hcompute, hiff.mpr fun hlost => ?_⟩
    cases hlost.norm_eq

end NewtonDescent

end LeastSquares
