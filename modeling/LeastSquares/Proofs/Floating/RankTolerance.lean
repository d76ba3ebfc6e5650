import LeastSquares.Dense.Solver
import LeastSquares.Proofs.SpecialValues
import LeastSquares.Proofs.Floating.Binary

/-!
# The rank tolerance in floating point

The tolerance is the largest magnitude times the dimension times the gap of the format, formed from the
left. With exact products it would be below the largest magnitude as long as the dimension times the gap
is below one. Two roundings do not change that, with two exceptions: the first product may be too large
for the format, and a magnitude of a few bits may lose what the last product takes from it.

In the first of these cases the tolerance is infinite, in the second one it is the magnitude itself. Then
pivots of equal magnitude are refused, and no singular value counts; in all other cases the tolerance
stays below the magnitude (`StaysBelow`, `rankTolerance_keeps_largest_iff`). The second case takes a
magnitude without full precision and a dimension of at least one half of the reciprocal of the gap.
-/

namespace LeastSquares.Dense

open Float.Model (Format UnpackedFloat)
open Scalar Scalar.Binary Floating

variable {α : Type} [Scalar α] [Binary α] {largest : α} {dim : ℕ}

/-! ### Units of a mantissa -/

section Counts

variable {k n : ℕ}

/-- A count below a full mantissa takes at least one unit off every full mantissa. -/
theorem mul_le_of_long (hlong : n ≤ k) (hdim : dim < n) : k * dim ≤ (k - 1) * n := by
  calc k * dim ≤ k * (n - 1) := Nat.mul_le_mul_left k (by omega)
    _ = k * n - k := by rw [Nat.mul_sub, Nat.mul_one]
    _ ≤ k * n - n := Nat.sub_le_sub_left hlong (k * n)
    _ = (k - 1) * n := by rw [Nat.sub_mul, Nat.one_mul]

/-- A count below half of a full mantissa takes at least half of the units off. -/
theorem mul_le_of_half (htwo : 2 ≤ k) (hdim : 2 * dim < n) : k * dim ≤ (k - 1) * n := by
  obtain ⟨k, rfl⟩ := Nat.exists_eq_add_of_le htwo
  calc (2 + k) * dim ≤ (1 + k) * (2 * dim) := by
        rw [← Nat.mul_assoc]
        exact Nat.mul_le_mul_right dim (by omega)
    _ ≤ (1 + k) * n := Nat.mul_le_mul_left (1 + k) hdim.le
    _ = (2 + k - 1) * n := by
        congr 1
        omega

end Counts

/-! ### The tolerance and the largest magnitude -/

/-- What keeps the tolerance below the largest magnitude. The first product has to be finite. A magnitude
of few bits asks for more if the dimension is at least one half of the reciprocal of the gap: the last
product has to be below the middle between this magnitude and the number before it, or in the middle and
the magnitude is an odd multiple of the smallest number. -/
structure StaysBelow (largest : α) (dim : ℕ) : Prop where
  finite : isFinite (largest * ofNat dim) = true
  room : le minNormal largest = true ∨ 2 * dim * toReal (epsilon : α) < 1 ∨
    ∃ k : ℕ, toReal largest = k * 2 ^ (format α).minExponent ∧
      (toReal (largest * ofNat dim) * toReal (epsilon : α) <
          (k - 1 / 2) * 2 ^ (format α).minExponent ∨
        toReal (largest * ofNat dim) * toReal (epsilon : α) =
          (k - 1 / 2) * 2 ^ (format α).minExponent ∧ Odd k)

section Tolerance

theorem unpacked_le_infinity {u : UnpackedFloat} (hu : u.isFinite = true) :
    u.le (.infinity .positive) = true := by
  cases u with
  | finite s m e hm => cases s <;> rfl
  | zero s => cases s <;> rfl
  | infinity s => cases hu
  | notANumber => cases hu

/-- The gap of the format is the reciprocal of a power of two. -/
theorem mul_epsilon_lt_one_iff :
    dim * toReal (epsilon : α) < 1 ↔ dim < 2 ^ (format α).mantissaBitsWithoutImplicit := by
  rw [toReal_epsilon, zpow_neg, zpow_natCast, ← div_eq_mul_inv, div_lt_one (by positivity)]
  exact_mod_cast Iff.rfl

theorem lt_two_pow_mantissaBits (hdim : dim < 2 ^ (format α).mantissaBitsWithoutImplicit) :
    dim < 2 ^ (format α).mantissaBits := by
  have hbits := mantissaBits_eq (format α)
  exact hdim.trans (Nat.pow_lt_pow_right Nat.one_lt_two (by omega))

/-- A dimension is a count of few bits. -/
theorem ofNat_of_lt (hdim : dim < 2 ^ (format α).mantissaBitsWithoutImplicit) :
    isFinite (ofNat dim : α) = true ∧ toReal (ofNat dim : α) = dim := by
  have hlt := lt_two_pow_mantissaBits hdim
  have hrepresentable : Representable (format α) (dim : ℝ) := .natCast hlt
  have hbelow : (dim : ℝ) < limit (format α) :=
    calc (dim : ℝ) < 2 ^ (format α).mantissaBits := by exact_mod_cast hlt
      _ ≤ limit (format α) := pow_le_pow_right₀ one_le_two (mantissaBits_le (α := α))
  have hcount := ofNat_isRounded (α := α) dim
  have hfinite := hcount.isFinite hrepresentable (Nat.abs_cast dim).le hbelow
  exact ⟨hfinite, le_antisymm (hcount.le hrepresentable hfinite le_rfl)
    (hcount.ge hrepresentable hfinite le_rfl)⟩

theorem toReal_epsilon_pos : 0 < toReal (epsilon : α) := by
  rw [toReal_epsilon]
  positivity

/-- The tolerance is not larger than the first product. -/
theorem isFinite_rankTolerance (hproduct : isFinite (largest * ofNat dim) = true) :
    isFinite (rankTolerance largest dim) = true := by
  have hepsilon : toReal (epsilon : α) ≤ 1 := by
    rw [toReal_epsilon]
    exact zpow_le_one_of_nonpos₀ one_le_two (by omega)
  refine (mul_isRounded hproduct isFinite_epsilon).isFinite_of_abs_le (x := largest * ofNat dim) ?_
  rw [abs_mul, abs_of_pos toReal_epsilon_pos]
  exact mul_le_of_le_one_right (abs_nonneg _) hepsilon

variable (hfinite : isFinite largest = true)

include hfinite

/-- A magnitude without full precision is a multiple of the smallest number by a count of few bits. -/
theorem count_lt_of_subnormal {k : ℕ} (hvalue : toReal largest = k * 2 ^ (format α).minExponent)
    (hsubnormal : ¬le minNormal largest = true) : k < 2 ^ (format α).mantissaBits := by
  rw [le_iff_toReal isFinite_minNormal hfinite, toReal_minNormal, hvalue, not_le] at hsubnormal
  have hcount : (k : ℝ) < 2 ^ (format α).mantissaBitsWithoutImplicit :=
    lt_of_mul_lt_mul_right hsubnormal (by positivity)
  exact lt_two_pow_mantissaBits (by exact_mod_cast hcount)

variable (hdim : dim < 2 ^ (format α).mantissaBitsWithoutImplicit)

include hdim

theorem product_isRounded : IsRounded (toReal largest * dim) (largest * ofNat dim) := by
  obtain ⟨hcount, hvalue⟩ := ofNat_of_lt hdim
  have h := mul_isRounded hfinite hcount
  rwa [hvalue] at h

variable (hproduct : isFinite (largest * ofNat dim) = true)

include hproduct

/-- **Two roundings.** A number of the format that bounds the exact tolerance bounds the tolerance, since
the format has its multiples by powers of two as well. -/
theorem toReal_rankTolerance_le {k : ℕ} {e : ℤ} (hk : k < 2 ^ (format α).mantissaBits)
    (he : (format α).minExponent ≤ e)
    (hbound : toReal largest * dim ≤ k * 2 ^ (e + (format α).mantissaBitsWithoutImplicit)) :
    toReal (rankTolerance largest dim) ≤ k * 2 ^ e := by
  have hfirst : toReal (largest * ofNat dim) ≤ k * 2 ^ (e + (format α).mantissaBitsWithoutImplicit) :=
    (product_isRounded hfinite hdim).le (.natCast_mul hk (by omega)) hproduct hbound
  refine (mul_isRounded hproduct isFinite_epsilon).le (.natCast_mul hk he)
    (isFinite_rankTolerance hproduct) ?_
  calc toReal (largest * ofNat dim) * toReal (epsilon : α)
      ≤ k * 2 ^ (e + (format α).mantissaBitsWithoutImplicit) * toReal (epsilon : α) :=
        mul_le_mul_of_nonneg_right hfirst toReal_epsilon_pos.le
    _ = k * 2 ^ e := by
        rw [toReal_epsilon, mul_assoc, ← zpow_add₀ two_ne_zero, add_neg_cancel_right]

/-- It is enough that the exact tolerance takes one unit off the mantissa. -/
theorem toReal_rankTolerance_lt_of_mul_le {k : ℕ} {e : ℤ} (hform : InForm (format α) k e)
    (hvalue : toReal largest = k * 2 ^ e) (hk : 0 < k)
    (hcount : k * dim ≤ (k - 1) * 2 ^ (format α).mantissaBitsWithoutImplicit) :
    toReal (rankTolerance largest dim) < toReal largest := by
  have hpower : (0 : ℝ) < 2 ^ e := by positivity
  have hexact : (k : ℝ) * dim ≤ (k - 1 : ℕ) * 2 ^ (format α).mantissaBitsWithoutImplicit := by
    exact_mod_cast hcount
  have hbound : toReal largest * dim ≤
      (k - 1 : ℕ) * 2 ^ (e + (format α).mantissaBitsWithoutImplicit) :=
    calc toReal largest * dim = k * dim * 2 ^ e := by rw [hvalue, mul_right_comm]
      _ ≤ (k - 1 : ℕ) * 2 ^ (format α).mantissaBitsWithoutImplicit * 2 ^ e :=
          mul_le_mul_of_nonneg_right hexact hpower.le
      _ = (k - 1 : ℕ) * 2 ^ (e + (format α).mantissaBitsWithoutImplicit) := by
          rw [zpow_add₀ two_ne_zero, zpow_natCast, mul_assoc, mul_comm ((2 : ℝ) ^ e)]
  calc toReal (rankTolerance largest dim) ≤ (k - 1 : ℕ) * 2 ^ e :=
        toReal_rankTolerance_le hfinite hdim hproduct ((Nat.sub_le k 1).trans_lt hform.lt)
          hform.minExponent_le hbound
    _ < k * 2 ^ e := mul_lt_mul_of_pos_right (by exact_mod_cast Nat.sub_lt hk one_pos) hpower
    _ = toReal largest := hvalue.symm

variable (hpos : 0 < toReal largest)

include hpos

theorem product_nonneg : 0 ≤ toReal (largest * ofNat dim) :=
  (product_isRounded hfinite hdim).ge .zero hproduct (by positivity)

/-- The smallest magnitude of all has a tolerance that is rounded to zero. -/
theorem toReal_rankTolerance_of_smallest (hsmallest : toReal largest = 2 ^ (format α).minExponent)
    (hhalf : 2 * dim * toReal (epsilon : α) < 1) : toReal (rankTolerance largest dim) = 0 := by
  have hfirst : toReal (largest * ofNat dim) ≤ dim * 2 ^ (format α).minExponent := by
    refine (product_isRounded hfinite hdim).le
      (.natCast_mul (lt_two_pow_mantissaBits hdim) le_rfl) hproduct ?_
    rw [hsmallest, mul_comm]
  have hpower : (0 : ℝ) < 2 ^ (format α).minExponent := by positivity
  refine (mul_isRounded hproduct isFinite_epsilon).eq_zero
    (isFinite_rankTolerance hproduct)
    (mul_nonneg (product_nonneg hfinite hdim hproduct hpos) toReal_epsilon_pos.le) ?_
  calc toReal (largest * ofNat dim) * toReal (epsilon : α)
      ≤ dim * 2 ^ (format α).minExponent * toReal (epsilon : α) :=
        mul_le_mul_of_nonneg_right hfirst toReal_epsilon_pos.le
    _ = 2 * dim * toReal (epsilon : α) * 2 ^ (format α).minExponent / 2 := by ring
    _ < 1 * 2 ^ (format α).minExponent / 2 := by gcongr
    _ = 2 ^ (format α).minExponent / 2 := by rw [one_mul]

/-- The tolerance is below the largest magnitude, unless that has few bits and the dimension is huge. -/
theorem toReal_rankTolerance_lt
    (hprecise : le minNormal largest = true ∨ 2 * dim * toReal (epsilon : α) < 1) :
    toReal (rankTolerance largest dim) < toReal largest := by
  obtain ⟨k, e, hform, hvalue⟩ := (inFormat_unpacked largest).exists_mantissa hpos
  change toReal largest = _ at hvalue
  have hk : 0 < k := by
    refine Nat.pos_of_ne_zero fun hzero => hpos.ne' ?_
    rw [hvalue, hzero, Nat.cast_zero, zero_mul]
  by_cases hlong : 2 ^ (format α).mantissaBitsWithoutImplicit ≤ k
  · refine toReal_rankTolerance_lt_of_mul_le hfinite hdim hproduct hform hvalue hk ?_
    exact mul_le_of_long hlong hdim
  -- A short mantissa has the smallest exponent, and is below the numbers of full precision.
  · have he : e = (format α).minExponent := by
      by_contra hne
      exact hlong (hform.le_of_ne hne)
    have hhalf : 2 * dim * toReal (epsilon : α) < 1 := by
      refine hprecise.resolve_left fun hnormal => hlong ?_
      rw [le_iff_toReal isFinite_minNormal hfinite, toReal_minNormal, hvalue, he] at hnormal
      exact_mod_cast le_of_mul_le_mul_right hnormal (by positivity)
    rcases Nat.eq_or_lt_of_le (Nat.succ_le_of_lt hk) with hone | htwo
    · have hsmallest : toReal largest = 2 ^ (format α).minExponent := by
        rw [hvalue, ← hone, he, Nat.cast_one, one_mul]
      rw [toReal_rankTolerance_of_smallest hfinite hdim hproduct hpos hsmallest hhalf]
      exact hpos
    · have htwice : 2 * dim < 2 ^ (format α).mantissaBitsWithoutImplicit :=
        mul_epsilon_lt_one_iff.mp (by exact_mod_cast hhalf)
      refine toReal_rankTolerance_lt_of_mul_le hfinite hdim hproduct hform hvalue hk ?_
      exact mul_le_of_half htwo htwice

omit hfinite hdim in
/-- For a magnitude of few bits it depends on which of two numbers the last product is nearer to. -/
theorem toReal_rankTolerance_lt_iff {k : ℕ} (hbits : k < 2 ^ (format α).mantissaBits)
    (hvalue : toReal largest = k * 2 ^ (format α).minExponent) :
    toReal (rankTolerance largest dim) < toReal largest ↔
      toReal (largest * ofNat dim) * toReal (epsilon : α) <
          (k - 1 / 2) * 2 ^ (format α).minExponent ∨
        toReal (largest * ofNat dim) * toReal (epsilon : α) =
          (k - 1 / 2) * 2 ^ (format α).minExponent ∧ Odd k := by
  have hk : 0 < k := by
    refine Nat.pos_of_ne_zero fun hzero => hpos.ne' ?_
    rw [hvalue, hzero, Nat.cast_zero, zero_mul]
  rw [hvalue]
  exact (mul_isRounded hproduct isFinite_epsilon).lt_iff (isFinite_rankTolerance hproduct) hk hbits

omit hproduct

/-- A first product that is too large leaves an infinite tolerance. -/
theorem unpacked_rankTolerance (hproduct : ¬isFinite (largest * ofNat dim) = true) :
    unpacked (rankTolerance largest dim) = .infinity .positive := by
  have hinfinite : unpacked (largest * ofNat dim) = .infinity .positive :=
    (product_isRounded hfinite hdim).eq_infinity (by positivity) hproduct
  obtain ⟨h, hepsilon⟩ := epsilon_eq (α := α)
  rw [rankTolerance, mul_eq, hinfinite, hepsilon]
  exact unpacked_infinity .positive

/-- The tolerance is below the largest magnitude exactly if nothing raises it up to there. -/
theorem toReal_rankTolerance_lt_iff_staysBelow (hproduct : isFinite (largest * ofNat dim) = true) :
    toReal (rankTolerance largest dim) < toReal largest ↔ StaysBelow largest dim := by
  by_cases hnormal : le minNormal largest = true
  · exact iff_of_true (toReal_rankTolerance_lt hfinite hdim hproduct hpos (.inl hnormal))
      ⟨hproduct, .inl hnormal⟩
  constructor
  · intro hlt
    obtain ⟨n, hn⟩ := (representable_toReal largest).exists_multiple
    have hcount : 0 ≤ n := by
      by_contra hneg
      have hle : (n : ℝ) * 2 ^ (format α).minExponent ≤ 0 :=
        mul_nonpos_of_nonpos_of_nonneg (by exact_mod_cast (not_le.mp hneg).le) (by positivity)
      linarith
    obtain ⟨k, rfl⟩ := Int.eq_ofNat_of_zero_le hcount
    rw [Int.cast_natCast] at hn
    have hbits := count_lt_of_subnormal hfinite hn hnormal
    exact ⟨hproduct, .inr (.inr ⟨k, hn,
      (toReal_rankTolerance_lt_iff hproduct hpos hbits hn).mp hlt⟩)⟩
  · rintro ⟨-, hnormal' | hhalf | ⟨k, hvalue, hmiddle⟩⟩
    · exact absurd hnormal' hnormal
    · exact toReal_rankTolerance_lt hfinite hdim hproduct hpos (.inr hhalf)
    · have hbits := count_lt_of_subnormal hfinite hvalue hnormal
      exact (toReal_rankTolerance_lt_iff hproduct hpos hbits hvalue).mpr hmiddle

theorem rankTolerance_lt_iff :
    lt (rankTolerance largest dim) largest = true ↔ StaysBelow largest dim := by
  by_cases hproduct : isFinite (largest * ofNat dim) = true
  · rw [lt_iff_toReal (isFinite_rankTolerance hproduct) hfinite]
    exact toReal_rankTolerance_lt_iff_staysBelow hfinite hdim hpos hproduct
  · refine iff_of_false (fun hlt => ?_) fun h => hproduct h.finite
    rw [lt_iff, unpacked_rankTolerance hfinite hdim hpos hproduct, unpacked_infinity_lt] at hlt
    cases hlt

theorem le_rankTolerance_iff :
    le largest (rankTolerance largest dim) = true ↔ ¬StaysBelow largest dim := by
  by_cases hproduct : isFinite (largest * ofNat dim) = true
  · rw [le_iff_toReal hfinite (isFinite_rankTolerance hproduct), ← not_lt]
    exact not_congr (toReal_rankTolerance_lt_iff_staysBelow hfinite hdim hpos hproduct)
  · refine iff_of_true ?_ fun h => hproduct h.finite
    rw [le_iff, unpacked_rankTolerance hfinite hdim hpos hproduct]
    exact unpacked_le_infinity (finite_unpacked hfinite)

end Tolerance

/-! ### Magnitudes that are all equal -/

section Equal

theorem foldl_replicate {β : Type} {f : β → β → β} {x : β} (hstay : f x x = x) (n : ℕ) :
    (List.replicate n x).foldl f x = x := by
  induction n with
  | zero => rfl
  | succ n ih => rw [List.replicate_succ, List.foldl_cons, hstay, ih]

omit [Binary α] in
theorem largestOf_replicate (hpos : lt 0 largest = true) (n : ℕ) :
    largestOf (List.replicate (n + 1) largest) = largest := by
  have hstart : Scalar.max 0 largest = largest := by
    rw [Scalar.max, hpos, Bool.or_true]
    rfl
  rw [largestOf, List.replicate_succ, List.foldl_cons, hstart]
  exact foldl_replicate (by rw [Scalar.max, ite_self]) n

theorem smallestOf_replicate (hfinite : isFinite largest = true) (n : ℕ) :
    smallestOf (List.replicate (n + 1) largest) = largest := by
  have hinfinite : lt infinity largest = false := by
    rw [Bool.eq_false_iff, ne_eq, lt_iff, infinity_eq, unpacked_infinity_lt]
    exact Bool.false_ne_true
  have hstart : Scalar.min infinity largest = largest := by
    rw [Scalar.min, isNaN_eq_false hfinite, hinfinite]
    rfl
  rw [smallestOf, List.replicate_succ, List.foldl_cons, hstart]
  exact foldl_replicate (by rw [Scalar.min, ite_self]) n

end Equal

/-! ### What the solvers make of it -/

section Solvers

variable [Kernels α] (hfinite : isFinite largest = true) (hpos : lt 0 largest = true)
  (hsmall : dim * toReal (epsilon : α) < 1)

include hfinite hpos hsmall

/-- Pivots of equal magnitude are refused exactly if the tolerance does not stay below them. -/
theorem factor_lu_of_equal_pivots {a : DenseMatrix α} (hrows : a.nrows = dim)
    (hcolumns : a.ncols = dim) (hentries : a.allFinite = true) {n : ℕ}
    (hpivots : (Kernels.lu a).pivots = List.replicate (n + 1) largest) :
    (StaysBelow largest dim → factor .lu a = .ok ((Factors.lu (Kernels.lu a)).of a)) ∧
      (¬StaysBelow largest dim → factor .lu a = .error ⟨.singular, [.pivotBelowCutoff]⟩) := by
  have hreal := (zero_lt_iff_toReal hfinite).mp hpos
  have hdim := mul_epsilon_lt_one_iff.mp hsmall
  have hverdict := le_rankTolerance_iff hfinite hdim hreal
  have hsquare : requireSquare .lu a = .ok () := if_pos (hrows.trans hcolumns.symm)
  have hinput : requireFinite a = .ok () := if_pos hentries
  rw [factor, hsquare, hinput]
  dsimp only [bind, Except.bind]
  rw [hpivots, largestOf_replicate hpos, smallestOf_replicate hfinite, hrows]
  exact ⟨fun hbelow => if_neg fun hle => hverdict.mp hle hbelow,
    fun hnot => if_pos (hverdict.mpr hnot)⟩

omit [Kernels α]

/-- The largest singular value counts exactly if the tolerance stays below it. -/
theorem weights_of_largest {f : SvdFactors α} {nrows ncols : ℕ} (hlonger : Nat.max nrows ncols = dim)
    (hlargest : largestOf f.sigma = largest) {i : ℕ} (hi : i < ncols)
    (hvalue : f.sigma[i]? = some largest) (b : List α) :
    (StaysBelow largest dim →
        (f.weights nrows ncols b)[i]? = some ((f.u.transpose.mulVec b).getD i 0 / largest)) ∧
      (¬StaysBelow largest dim → (f.weights nrows ncols b)[i]? = some 0) := by
  have hreal := (zero_lt_iff_toReal hfinite).mp hpos
  have hverdict := rankTolerance_lt_iff hfinite (mul_epsilon_lt_one_iff.mp hsmall) hreal
  simp only [SvdFactors.weights, List.getElem?_map, List.getElem?_range hi, Option.map_some, hvalue,
    hlonger, hlargest]
  exact ⟨fun hbelow => congrArg some (if_pos (hverdict.mpr hbelow)),
    fun hnot => congrArg some (if_neg (mt hverdict.mp hnot))⟩

end Solvers

/-- A multiple of the unit matrix with two rows. -/
def unitMultiple (x : α) : DenseMatrix α := .ofFn 2 2 fun i j => if i = j then x else 0

/-- **The rank tolerance.** The tolerance is finite and below the largest magnitude exactly if the
product of that magnitude and the dimension is finite and the last product is not rounded up to a
magnitude of few bits. Only a magnitude without full precision can be met so, and only by a dimension
that times the gap of the format is at least one half; in all other cases it is the finite product alone
that counts. Where the tolerance stays below, a matrix with pivots of this one magnitude is factored, and
the largest singular value counts; otherwise such a matrix is refused, and not even the largest singular
value counts. The dimension times the gap of the format is below one throughout. -/
theorem rankTolerance_keeps_largest_iff [Kernels α] (hfinite : isFinite largest = true)
    (hpos : lt 0 largest = true) (hsmall : dim * toReal (epsilon : α) < 1) :
    (isFinite (rankTolerance largest dim) = true ∧ lt (rankTolerance largest dim) largest = true ↔
        StaysBelow largest dim) ∧
      (le minNormal largest = true ∨ 2 * dim * toReal (epsilon : α) < 1 →
        (StaysBelow largest dim ↔ isFinite (largest * ofNat dim) = true)) ∧
      (∀ (a : DenseMatrix α) (n : ℕ), a.nrows = dim → a.ncols = dim → a.allFinite = true →
        (Kernels.lu a).pivots = List.replicate (n + 1) largest →
        (StaysBelow largest dim → factor .lu a = .ok ((Factors.lu (Kernels.lu a)).of a)) ∧
          (¬StaysBelow largest dim → factor .lu a = .error ⟨.singular, [.pivotBelowCutoff]⟩)) ∧
      ∀ (f : SvdFactors α) (nrows ncols i : ℕ) (b : List α), Nat.max nrows ncols = dim →
        largestOf f.sigma = largest → i < ncols → f.sigma[i]? = some largest →
        (StaysBelow largest dim →
            (f.weights nrows ncols b)[i]? = some ((f.u.transpose.mulVec b).getD i 0 / largest)) ∧
          (¬StaysBelow largest dim → (f.weights nrows ncols b)[i]? = some 0) := by
  have hreal := (zero_lt_iff_toReal hfinite).mp hpos
  have hverdict := rankTolerance_lt_iff hfinite (mul_epsilon_lt_one_iff.mp hsmall) hreal
  refine ⟨⟨fun h => hverdict.mp h.2, fun hbelow => ⟨?_, hverdict.mpr hbelow⟩⟩, ?_, ?_, ?_⟩
  · exact isFinite_rankTolerance hbelow.finite
  · intro hprecise
    exact ⟨StaysBelow.finite, fun hproduct => ⟨hproduct, hprecise.imp_right .inl⟩⟩
  · intro a n hrows hcolumns hentries hpivots
    exact factor_lu_of_equal_pivots hfinite hpos hsmall hrows hcolumns hentries hpivots
  · intro f nrows ncols i b hlonger hlargest hi hvalue
    exact weights_of_largest hfinite hpos hsmall hlonger hlargest hi hvalue b

/-- Twice the magnitude is too large in double precision, and in single precision it is not. The smallest
number of single precision stays above the tolerance of half of the largest dimension, and is lost with
one row more. -/
theorem rankTolerance_keeps_largest_two :
    ¬(isFinite (rankTolerance (1e308 : Float) 2) = true ∧
        lt (rankTolerance (1e308 : Float) 2) 1e308 = true) ∧
      factor .lu (unitMultiple (1e308 : Float)) = .error ⟨.singular, [.pivotBelowCutoff]⟩ ∧
      (SvdFactors.weights ⟨unitMultiple (1 : Float), unitMultiple 1, [1e308, 1e308]⟩ 2 2
        [1e308, 1e308])[0]? = some 0 ∧
      (isFinite (rankTolerance (3 : Float32) 2) = true ∧
        lt (rankTolerance (3 : Float32) 2) 3 = true) ∧
      factor .lu (unitMultiple (3 : Float32)) =
        .ok ((Factors.lu (Kernels.lu (unitMultiple 3))).of (unitMultiple 3)) ∧
      StaysBelow (1e-45 : Float32) (2 ^ 22) ∧ ¬StaysBelow (1e-45 : Float32) (2 ^ 22 + 1) ∧
      (SvdFactors.weights ⟨unitMultiple (1 : Float32), unitMultiple 1, [1e-45]⟩ (2 ^ 22 + 1) 1
        [1])[0]? = some 0 := by
  have hsmall : ((2 : ℕ) : ℝ) * toReal (epsilon : Float) < 1 :=
    mul_epsilon_lt_one_iff.mpr (by decide)
  have hsmall' : ((2 : ℕ) : ℝ) * toReal (epsilon : Float32) < 1 :=
    mul_epsilon_lt_one_iff.mpr (by decide)
  obtain ⟨hdouble, hhuge, hrefused, hdropped⟩ := rankTolerance_keeps_largest_iff
    (show isFinite (1e308 : Float) = true by decide +kernel) (by decide +kernel) hsmall
  obtain ⟨hsingle, hthree, hfactored, -⟩ := rankTolerance_keeps_largest_iff
    (show isFinite (3 : Float32) = true by decide +kernel) (by decide +kernel) hsmall'
  have hhuge : ¬StaysBelow (1e308 : Float) 2 :=
    mt (hhuge (.inl (by decide +kernel))).mp (by decide +kernel)
  have hthree : StaysBelow (3 : Float32) 2 :=
    (hthree (.inl (by decide +kernel))).mpr (by decide +kernel)
  have htiny : isFinite (1e-45 : Float32) = true ∧ lt 0 (1e-45 : Float32) = true := by
    decide +kernel
  obtain ⟨hhalf, -⟩ := rankTolerance_keeps_largest_iff htiny.1 htiny.2
    (mul_epsilon_lt_one_iff.mpr (show 2 ^ 22 < 2 ^ 23 by decide))
  obtain ⟨hmore, -, -, hlost⟩ := rankTolerance_keeps_largest_iff htiny.1 htiny.2
    (mul_epsilon_lt_one_iff.mpr (show 2 ^ 22 + 1 < 2 ^ 23 by decide))
  have hmore : ¬StaysBelow (1e-45 : Float32) (2 ^ 22 + 1) := mt hmore.mpr (by decide +kernel)
  refine ⟨mt hdouble.mp hhuge, ?_, ?_, hsingle.mpr hthree, ?_, hhalf.mp (by decide +kernel), hmore, ?_⟩
  · exact (hrefused (unitMultiple 1e308) 1 rfl rfl (by decide +kernel) (by decide +kernel)).2 hhuge
  · have hlargest : largestOf [1e308, 1e308] = (1e308 : Float) := by decide +kernel
    exact (hdropped ⟨unitMultiple 1, unitMultiple 1, [1e308, 1e308]⟩ 2 2 0 [1e308, 1e308]
      rfl hlargest two_pos List.getElem?_cons_zero).2 hhuge
  · exact (hfactored (unitMultiple 3) 1 rfl rfl (by decide +kernel) (by decide +kernel)).1 hthree
  · have hlargest : largestOf [1e-45] = (1e-45 : Float32) := by decide +kernel
    exact (hlost ⟨unitMultiple 1, unitMultiple 1, [1e-45]⟩ (2 ^ 22 + 1) 1 0 [1] (by decide) hlargest
      one_pos List.getElem?_cons_zero).2 hmore

end LeastSquares.Dense
