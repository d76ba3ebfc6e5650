import LeastSquares.Proofs.Stopping
import LeastSquares.Proofs.Floating.Unbounded

/-!
# The stopping test in double precision

A change that is infinite or no number, a point with an entry that is no number, or an objective that is
infinite or no number: none of them is taken for convergence, whatever the tolerances are
(`stopping_of_not_finite`). The change of a leaf is divided by the bound for it, and the quotient is
not finite if the change is not, or if the bound is no number. So the norm is below nothing. The
difference of two objectives is not finite if one of them is not.

At rest the change is zero, and the test is whether zero is below every bound. The bounds of a finite
point are numbers that are not below zero, or infinity. Those that are zero are the trouble: zero is not
below zero, and zero divided by zero is no number. So a point at rest is settled exactly when no bound is
zero (`stopping_at_rest`); an absolute tolerance above zero makes sure of that.
-/

namespace LeastSquares

open Float.Model (Format UnpackedFloat)
open Float.Model.UnpackedFloat (Sign)
open Scalar Scalar.Binary

/-! ### Differences -/

section Difference

theorem signed_apply_neg (s : Sign) (n : ℤ) : (-s).apply n = -s.apply n := by
  cases s with
  | positive => rfl
  | negative => exact (neg_neg n).symm

/-- A difference is the sum with the negative. -/
theorem unpackedSub_eq (format : Format) (u v : UnpackedFloat) :
    u.sub format v = u.add format v.neg := by
  cases u with
  | notANumber => rfl
  | infinity s => cases v <;> rfl
  | zero s => cases v <;> rfl
  | finite s m e hm =>
      cases v with
      | finite s' m' e' hm' =>
          simp only [UnpackedFloat.sub, UnpackedFloat.add, UnpackedFloat.neg, signed_apply_neg,
            sub_eq_add_neg]
      | zero s' => rfl
      | infinity s' => rfl
      | notANumber => rfl

theorem double_sub_eq (x y : Float) : x - y = x + -y := by
  have hadd : x + -y = packed (UnpackedFloat.add (format Float) (unpacked x) (unpacked (-y))) :=
    add_eq x (-y)
  rw [hadd, unpacked_neg, ← unpackedSub_eq]
  rfl

end Difference

/-! ### Tests on what is not finite -/

section NotFinite

variable {κ : Type} {tolerance : Tolerance Float} {norm : Norm Float} {d x f g : Float}

/-- The difference of two objectives is below nothing if one of them is not finite. -/
theorem objectiveSettled_of_not_finite (h : ¬(isFinite f = true ∧ isFinite g = true)) :
    objectiveSettled tolerance f g = false := by
  have hdifference : ¬isFinite (f - g) = true := by
    intro hfinite
    rw [double_sub_eq] at hfinite
    obtain ⟨hf, hg⟩ := isFinite_of_add hfinite
    exact h ⟨hf, (isFinite_neg g).symm.trans hg⟩
  exact (unbounded_abs hdifference).lt_eq_false _

/-- Next to what is no number nothing is allowed. -/
theorem unpacked_bound_of_nan (tolerance : Tolerance Float) (hx : isNaN x = true) :
    unpacked (tolerance.bound x) = .notANumber := by
  have habs : unpacked (Scalar.abs x) = .notANumber := by
    rw [unpacked_abs, unpacked_of_isNaN hx]
    rfl
  exact unpacked_add_of_nan (.inr (unpacked_mul_of_nan (.inr habs)))

theorem not_isFinite_scaled (h : ¬isFinite d = true ∨ isNaN x = true) :
    ¬isFinite (d / tolerance.bound x) = true := by
  rcases h with hd | hx
  · exact fun hfinite => hd (isFinite_of_div hfinite)
  · rw [isFinite_eq, unpacked_div_of_nan (.inr (unpacked_bound_of_nan tolerance hx))]
    exact Bool.false_ne_true

/-- A leaf whose quotient is not finite keeps a point from being settled. -/
theorem leavesSettled_of_not_finite (hnorm : norm.IsBuiltIn) {ds xs : List Float}
    (h : ∃ z ∈ List.zipWith (fun d x => d / tolerance.bound x) ds xs, ¬isFinite z = true) :
    leavesSettled tolerance norm ds xs = false :=
  (unbounded_ofLeaves hnorm h).lt_eq_false 1

/-- **What is not finite is not taken for convergence.** A point and its change have the same number of
leaves. If a leaf of the change is not finite, or a leaf of the point is no number, or one of the two
objectives is not finite, then the test says to go on, for all tolerances whatever and for each of the
norms of this library. -/
theorem stopping_of_not_finite (tolerance : Tolerance Float) (hnorm : norm.IsBuiltIn)
    {y diff : Tree κ Float} (hsize : diff.size = y.size)
    (h : (∃ d ∈ diff.leaves, ¬isFinite d = true) ∨ (∃ x ∈ y.leaves, isNaN x = true) ∨
      ¬isFinite f = true ∨ ¬isFinite g = true) :
    stopping tolerance norm y diff f g .successful = .ok (false, .successful) := by
  have hlength := leaves_length_eq_iff.mpr hsize
  rw [stopping_of_size_eq hsize]
  by_cases hobjective : isFinite f = true ∧ isFinite g = true
  · have hpair : ∃ p ∈ diff.leaves.zip y.leaves, ¬isFinite p.1 = true ∨ isNaN p.2 = true := by
      rcases h with ⟨d, hd, hdiff⟩ | ⟨x, hx, hpoint⟩ | hf | hg
      · obtain ⟨x, hpair⟩ := exists_mem_zip_left hlength.le hd
        exact ⟨(d, x), hpair, .inl hdiff⟩
      · obtain ⟨d, hpair⟩ := exists_mem_zip_right hlength.ge hx
        exact ⟨(d, x), hpair, .inr hpoint⟩
      · exact absurd hobjective.1 hf
      · exact absurd hobjective.2 hg
    obtain ⟨p, hp, hbad⟩ := hpair
    rw [leavesSettled_of_not_finite hnorm
      ⟨_, mem_zipWith_iff.mpr ⟨p, hp, rfl⟩, not_isFinite_scaled hbad⟩]
    rfl
  · rw [objectiveSettled_of_not_finite hobjective, Bool.and_false]

/-- An infinite change is not taken for convergence although the tolerances are infinite, nor is a change
of zero from what is no number. -/
theorem stopping_of_not_finite_infinity :
    let boundless : Tolerance Float := ⟨infinity, infinity⟩
    stopping boundless .max (.array .growable [1, 2] : Tree Unit Float)
        (.array .growable [0, infinity]) 1 1 .successful = .ok (false, .successful) ∧
      stopping boundless .rms (.array .growable [1, nan] : Tree Unit Float)
        (.array .growable [0, 0]) 1 1 .successful = .ok (false, .successful) := by
  intro boundless
  have hmax : (Norm.max : Norm Float).IsBuiltIn := trivial
  have hrms : (Norm.rms : Norm Float).IsBuiltIn := trivial
  refine ⟨stopping_of_not_finite boundless hmax rfl (.inl ⟨infinity, ?_, ?_⟩),
    stopping_of_not_finite boundless hrms rfl (.inr (.inl ⟨nan, ?_, rfl⟩))⟩
  · exact List.mem_cons_of_mem 0 List.mem_cons_self
  · decide +kernel
  · exact List.mem_cons_of_mem 1 List.mem_cons_self

end NotFinite

/-! ### The two zeros -/

section Zero

variable {x y : Float}

/-- One of the two zeros. -/
def IsZero (x : Float) : Prop := ∃ s, unpacked x = .zero s

theorem isZero_iff : IsZero x ↔ isFinite x = true ∧ toReal x = 0 := by
  constructor
  · rintro ⟨s, hs⟩
    rw [isFinite_eq, toReal, hs]
    exact ⟨rfl, rfl⟩
  · rintro ⟨hfinite, hvalue⟩
    rw [isFinite_eq] at hfinite
    rw [toReal] at hvalue
    cases hu : unpacked x with
    | zero s => exact ⟨s, hu⟩
    | finite s m e hm =>
        have hpos : (0 : ℝ) < m * 2 ^ e := by
          have hm : (0 : ℝ) < m := by exact_mod_cast hm
          positivity
        have habs := Floating.abs_signed hpos.le s
        rw [hu, Floating.value_finite] at hvalue
        rw [hvalue, abs_zero] at habs
        exact absurd habs hpos.ne
    | infinity s =>
        rw [hu] at hfinite
        cases hfinite
    | notANumber =>
        rw [hu] at hfinite
        cases hfinite

/-- What is zero before it is stored is stored as zero. -/
theorem isZero_of_isRounded (h : IsRounded 0 x) : IsZero x := by
  have hfinite := h.isFinite .zero abs_zero.le (Floating.limit_pos _)
  exact isZero_iff.mpr ⟨hfinite, le_antisymm (h.le .zero hfinite le_rfl) (h.ge .zero hfinite le_rfl)⟩

theorem lt_of_isZero (hx : IsZero x) (y : Float) : lt x y = lt 0 y := by
  obtain ⟨s, hs⟩ := hx
  rw [Bool.eq_iff_iff, lt_iff, lt_iff, zero_eq, hs]
  cases unpacked y with
  | finite s' m e hm => cases s' <;> exact Iff.rfl
  | zero s' => exact Iff.rfl
  | infinity s' => cases s' <;> exact Iff.rfl
  | notANumber => exact Iff.rfl

theorem isZero_add (hx : IsZero x) (hy : IsZero y) : IsZero (x + y) := by
  obtain ⟨hxfinite, hxvalue⟩ := isZero_iff.mp hx
  obtain ⟨hyfinite, hyvalue⟩ := isZero_iff.mp hy
  have hrounded := add_isRounded hxfinite hyfinite
  rw [hxvalue, hyvalue, add_zero] at hrounded
  exact isZero_of_isRounded hrounded

theorem isZero_mul_self (hx : IsZero x) : IsZero (x * x) := by
  obtain ⟨hfinite, hvalue⟩ := isZero_iff.mp hx
  have hrounded := mul_isRounded hfinite hfinite
  rw [hvalue, mul_zero] at hrounded
  exact isZero_of_isRounded hrounded

theorem isZero_sqrt (hx : IsZero x) : IsZero (Scalar.sqrt x) := by
  obtain ⟨hfinite, hvalue⟩ := isZero_iff.mp hx
  have hrounded := sqrt_isRounded hfinite hvalue.ge
  rw [hvalue, Real.sqrt_zero] at hrounded
  exact isZero_of_isRounded hrounded

/-- Zero divided by what is above zero. -/
theorem isZero_div (hx : IsZero x) (hy : lt 0 y = true) : IsZero (x / y) := by
  rcases zero_lt_iff_pos_or_infinity.mp hy with ⟨hyfinite, hpos⟩ | hinfinite
  · obtain ⟨hfinite, hvalue⟩ := isZero_iff.mp hx
    have hrounded := div_isRounded hfinite hyfinite hpos.ne'
    rw [hvalue, zero_div] at hrounded
    exact isZero_of_isRounded hrounded
  · obtain ⟨s, hs⟩ := hx
    exact isZero_of_isRounded ⟨_, Floating.rounds_zero _, by rw [div_eq, hs, hinfinite]; rfl⟩

/-- Zero divided by zero is no number. -/
theorem not_isFinite_zero_div (hx : IsZero x) (hy : IsZero y) : ¬isFinite (x / y) = true := by
  obtain ⟨s, hs⟩ := hx
  obtain ⟨s', hs'⟩ := hy
  have hdiv : unpacked (x / y) = .notANumber := by
    rw [div_eq, hs, hs']
    exact unpacked_notANumber
  rw [isFinite_eq, hdiv]
  exact Bool.false_ne_true

theorem isZero_maxMagnitudeStep {largest : Float} (h : IsZero largest) (hx : IsZero x) :
    IsZero (maxMagnitudeStep largest x) := by
  obtain ⟨hlargest, hlargestvalue⟩ := isZero_iff.mp h
  obtain ⟨hfinite, hvalue⟩ := isZero_iff.mp hx
  obtain ⟨hmax, hmaxvalue⟩ := max_of_finite hlargest ((isFinite_abs x).trans hfinite)
  rw [toReal_abs, hlargestvalue, hvalue, abs_zero, sup_idem] at hmaxvalue
  rw [maxMagnitudeStep, isNaN_eq_false hlargest, isNaN_eq_false hfinite]
  exact isZero_iff.mpr ⟨hmax, hmaxvalue⟩

/-- A step that keeps zero keeps it over a list of zeros. -/
theorem isZero_foldl {op : Float → Float → Float}
    (hop : ∀ {x y}, IsZero x → IsZero y → IsZero (op x y)) {xs : List Float} {start : Float}
    (hstart : IsZero start) (hall : ∀ x ∈ xs, IsZero x) : IsZero (xs.foldl op start) := by
  induction xs generalizing start with
  | nil => exact hstart
  | cons y ys ih =>
      exact ih (hop hstart (hall y List.mem_cons_self)) fun x hx => hall x (List.mem_cons_of_mem y hx)

/-- The norms of this library measure zeros as zero, however many there are. -/
theorem isZero_ofLeaves {norm : Norm Float} (hnorm : norm.IsBuiltIn) {xs : List Float}
    (hall : ∀ x ∈ xs, IsZero x) : IsZero (norm.ofLeaves xs) := by
  have hroot : IsZero (rootSumSquares xs) := by
    refine isZero_sqrt (isZero_foldl isZero_add ⟨.negative, negZero_eq⟩ fun z hz => ?_)
    obtain ⟨x, hx, rfl⟩ := List.mem_map.mp hz
    exact isZero_mul_self (hall x hx)
  have hzero : IsZero 0 := ⟨.positive, zero_eq⟩
  cases norm with
  | max => exact isZero_foldl isZero_maxMagnitudeStep hzero hall
  | rms =>
      rcases eq_or_ne xs [] with rfl | hne
      · exact hzero
      · rw [Norm.ofLeaves, rootMeanSquare_of_ne_nil hne]
        exact isZero_div hroot (zero_lt_sqrt_ofNat (List.length_pos_of_ne_nil hne))
  | two => exact hroot
  | custom measure => exact hnorm.elim

end Zero

/-! ### Tests at rest -/

section Rest

variable {κ : Type} {tolerance : Tolerance Float} {norm : Norm Float} {x f g : Float}

/-- Finite tolerances that are not below zero. -/
structure Tolerance.IsOrdinary (tolerance : Tolerance Float) : Prop where
  relative_finite : isFinite tolerance.relative = true
  relative_nonneg : 0 ≤ toReal tolerance.relative
  absolute_finite : isFinite tolerance.absolute = true
  absolute_nonneg : 0 ≤ toReal tolerance.absolute

/-- A finite point that has not moved at all, and a finite objective that has not changed. -/
structure AtRest (y diff : Tree κ Float) (f g : Float) : Prop where
  size_eq : diff.size = y.size
  point_finite : ∀ x ∈ y.leaves, isFinite x = true
  diff_zero : ∀ d ∈ diff.leaves, isFinite d = true ∧ toReal d = 0
  objective_finite : isFinite f = true
  previous_finite : isFinite g = true
  objective_eq : toReal f = toReal g

/-- The bound next to a finite value is infinity, or a number that is not below the absolute
tolerance. -/
theorem bound_cases (h : tolerance.IsOrdinary) (hx : isFinite x = true) :
    isFinite (tolerance.bound x) = true ∧ toReal tolerance.absolute ≤ toReal (tolerance.bound x) ∨
      unpacked (tolerance.bound x) = .infinity .positive := by
  have hproduct : 0 ≤ toReal tolerance.relative * toReal (Scalar.abs x) := by
    rw [toReal_abs]
    exact mul_nonneg h.relative_nonneg (abs_nonneg _)
  rcases (mul_isRounded h.relative_finite ((isFinite_abs x).trans hx)).cases_of_nonneg hproduct with
    ⟨hfinite, hnonneg⟩ | hinfinite
  · have hrounded : IsRounded _ (tolerance.bound x) := add_isRounded h.absolute_finite hfinite
    refine (hrounded.cases_of_nonneg (add_nonneg h.absolute_nonneg hnonneg)).imp_left fun hbound => ?_
    exact ⟨hbound.1, hrounded.ge (representable_toReal tolerance.absolute) hbound.1
      (le_add_of_nonneg_right hnonneg)⟩
  · exact .inr (unpacked_add_of_infinity (.inl h.absolute_finite) (.inr hinfinite) (.inr hinfinite))

/-- A bound that is not above zero is zero. -/
theorem isZero_bound (h : tolerance.IsOrdinary) (hx : isFinite x = true)
    (hbound : lt 0 (tolerance.bound x) = false) : IsZero (tolerance.bound x) := by
  rw [Bool.eq_false_iff, ne_eq, zero_lt_iff_pos_or_infinity, not_or, not_and] at hbound
  obtain ⟨hfinite, hge⟩ := (bound_cases h hx).resolve_right hbound.2
  exact isZero_iff.mpr ⟨hfinite,
    le_antisymm (not_lt.mp (hbound.1 hfinite)) (h.absolute_nonneg.trans hge)⟩

theorem zero_lt_bound (h : tolerance.IsOrdinary) (habsolute : 0 < toReal tolerance.absolute)
    (hx : isFinite x = true) : lt 0 (tolerance.bound x) = true :=
  zero_lt_iff_pos_or_infinity.mpr ((bound_cases h hx).imp_left fun hbound =>
    ⟨hbound.1, habsolute.trans_le hbound.2⟩)

/-- An objective that has not changed is settled if its bound is above zero. -/
theorem objectiveSettled_of_eq (hf : isFinite f = true) (hg : isFinite g = true)
    (heq : toReal f = toReal g) :
    objectiveSettled tolerance f g = lt 0 (tolerance.bound f) := by
  have hrounded := add_isRounded hf ((isFinite_neg g).trans hg)
  rw [toReal_neg, heq, add_neg_cancel, ← double_sub_eq] at hrounded
  obtain ⟨hfinite, hvalue⟩ := isZero_iff.mp (isZero_of_isRounded hrounded)
  have habs : IsZero (Scalar.abs (f - g)) :=
    isZero_iff.mpr ⟨(isFinite_abs _).trans hfinite, by rw [toReal_abs, hvalue, abs_zero]⟩
  exact lt_of_isZero habs _

/-- Leaves that have not moved are settled if all of their bounds are above zero. -/
theorem leavesSettled_of_zero (h : tolerance.IsOrdinary) (hnorm : norm.IsBuiltIn)
    {ds xs : List Float} (hlength : ds.length = xs.length) (hds : ∀ d ∈ ds, IsZero d)
    (hxs : ∀ x ∈ xs, isFinite x = true) :
    leavesSettled tolerance norm ds xs = xs.all fun x => lt 0 (tolerance.bound x) := by
  cases hall : xs.all fun x => lt 0 (tolerance.bound x) with
  | true =>
      have hscaled : ∀ z ∈ List.zipWith (fun d x => d / tolerance.bound x) ds xs, IsZero z := by
        intro z hz
        obtain ⟨⟨d, x⟩, hpair, rfl⟩ := mem_zipWith_iff.mp hz
        obtain ⟨hd, hx⟩ := List.of_mem_zip hpair
        exact isZero_div (hds d hd) (List.all_eq_true.mp hall x hx)
      have hone : lt (0 : Float) 1 = true := by
        rw [zero_lt_iff_toReal isFinite_one, toReal_one]
        exact zero_lt_one
      exact (lt_of_isZero (isZero_ofLeaves hnorm hscaled) 1).trans hone
  | false =>
      obtain ⟨x, hx, hbound⟩ := List.all_eq_false.mp hall
      obtain ⟨d, hpair⟩ := exists_mem_zip_right hlength.ge hx
      -- The change next to the bound of zero is zero too, and their quotient spoils the norm.
      have hzero := isZero_bound h (hxs x hx) (Bool.eq_false_iff.mpr hbound)
      exact leavesSettled_of_not_finite hnorm ⟨_, mem_zipWith_iff.mpr ⟨(d, x), hpair, rfl⟩,
        not_isFinite_zero_div (hds d (List.of_mem_zip hpair).1) hzero⟩

/-- **At rest.** A finite point has not moved and its objective has not changed. With finite tolerances
that are not below zero and one of the norms of this library, the test says to stop exactly when the
bounds next to the objective and to every leaf, as they are computed from the absolute tolerance and the
relative one, are above zero. They are if the absolute tolerance is. -/
theorem stopping_at_rest (h : tolerance.IsOrdinary) (hnorm : norm.IsBuiltIn) {y diff : Tree κ Float}
    (hrest : AtRest y diff f g) :
    stopping tolerance norm y diff f g .successful =
        .ok ((y.leaves.all fun x =>
              lt 0 (tolerance.absolute + tolerance.relative * Scalar.abs x)) &&
            lt 0 (tolerance.absolute + tolerance.relative * Scalar.abs f), .successful) ∧
      (0 < toReal tolerance.absolute →
        stopping tolerance norm y diff f g .successful = .ok (true, .successful)) := by
  have hpoint := leavesSettled_of_zero h hnorm (leaves_length_eq_iff.mpr hrest.size_eq)
    (fun d hd => isZero_iff.mpr (hrest.diff_zero d hd)) hrest.point_finite
  have hobjective : objectiveSettled tolerance f g = lt 0 (tolerance.bound f) :=
    objectiveSettled_of_eq hrest.objective_finite hrest.previous_finite hrest.objective_eq
  rw [stopping_of_size_eq hrest.size_eq, hpoint, hobjective]
  refine ⟨rfl, fun habsolute => ?_⟩
  have hall : (y.leaves.all fun x => lt 0 (tolerance.bound x)) = true :=
    List.all_eq_true.mpr fun x hx => zero_lt_bound h habsolute (hrest.point_finite x hx)
  rw [hall, zero_lt_bound h habsolute hrest.objective_finite]
  rfl

/-- A relative tolerance of one and no absolute one. -/
def relativeOnly : Tolerance Float := ⟨1, 0⟩

theorem relativeOnly_isOrdinary : relativeOnly.IsOrdinary :=
  ⟨isFinite_one, toReal_one.ge.trans' zero_le_one, isFinite_zero, toReal_zero.ge⟩

/-- A point with one leaf that has not moved. -/
theorem atRest_scalar {x f : Float} (hx : isFinite x = true) (hf : isFinite f = true) :
    AtRest (.scalar x : Tree Unit Float) (.scalar 0) f f where
  size_eq := rfl
  point_finite := by simpa [Tree.leaves] using hx
  diff_zero := by simp [Tree.leaves, isFinite_zero, toReal_zero]
  objective_finite := hf
  previous_finite := hf
  objective_eq := rfl

theorem stopping_at_rest_one :
    stopping relativeOnly .rms (.scalar 1 : Tree Unit Float) (.scalar 0) 1 1 .successful =
      .ok (true, .successful) := by
  have hrms : (Norm.rms : Norm Float).IsBuiltIn := trivial
  rw [(stopping_at_rest relativeOnly_isOrdinary hrms (atRest_scalar isFinite_one isFinite_one)).1]
  have hbound : lt 0 (relativeOnly.absolute + relativeOnly.relative * Scalar.abs 1) = true := by
    decide +kernel
  simp [Tree.leaves, hbound]

/-- Next to zero a relative tolerance allows nothing, not even rest: neither of a leaf that is zero nor
of an objective that is zero. -/
theorem not_stopping_at_rest_zero :
    relativeOnly.IsOrdinary ∧ toReal relativeOnly.relative ≠ 0 ∧
      AtRest (.scalar 0 : Tree Unit Float) (.scalar 0) 1 1 ∧
      stopping relativeOnly .max (.scalar 0 : Tree Unit Float) (.scalar 0) 1 1 .successful =
        .ok (false, .successful) ∧
      AtRest (.scalar 1 : Tree Unit Float) (.scalar 0) 0 0 ∧
      stopping relativeOnly .max (.scalar 1 : Tree Unit Float) (.scalar 0) 0 0 .successful =
        .ok (false, .successful) := by
  refine ⟨relativeOnly_isOrdinary, toReal_one.trans_ne one_ne_zero,
    atRest_scalar isFinite_zero isFinite_one, ?_, atRest_scalar isFinite_one isFinite_zero, ?_⟩
  · have hsize : (Tree.scalar 0 : Tree Unit Float).size = (Tree.scalar 0 : Tree Unit Float).size := rfl
    have hleaf : leavesSettled relativeOnly .max (Tree.scalar 0 : Tree Unit Float).leaves
        (Tree.scalar 0 : Tree Unit Float).leaves = false := by decide +kernel
    rw [stopping_of_size_eq hsize, hleaf, Bool.false_and]
  · have hsize : (Tree.scalar 0 : Tree Unit Float).size = (Tree.scalar 1 : Tree Unit Float).size := rfl
    have hobjective : objectiveSettled relativeOnly 0 0 = false := by decide +kernel
    rw [stopping_of_size_eq hsize, hobjective, Bool.and_false]

end Rest

end LeastSquares
