import LeastSquares.Proofs.Exact.Factorizations
import LeastSquares.Proofs.Exact.Tolerance

/-!
# From the strictest norm to the loosest

In exact arithmetic the three norms of this library order the stopping tests. The Euclidean norm is at
least the largest magnitude, and the root of the mean square is at most that; both hold of a list of any
length, the empty one included, and a list with an entry that is not a finite number is below one in none
of them. So a test that says to stop under the Euclidean norm does so under the largest magnitude, and
one that does under the largest magnitude does so under the mean (`stopping_nested`).

The largest magnitude reads the leaves one by one. Where the bounds are above zero, a quotient is below
one exactly when the change is below its bound, be the bound finite or infinite.
-/

namespace LeastSquares

open Matrix Exact LeastSquares.Tree

section Norms

variable {xs : List Exact}

/-- What has a magnitude below one is a real number. -/
theorem abs_lt_one_iff (x : Exact) :
    Scalar.lt (Scalar.abs x) 1 = true ↔ ∃ r : ℝ, x = real r ∧ |r| < 1 := by
  constructor
  · intro hlt
    cases x with
    | real r => exact ⟨r, rfl, of_decide_eq_true hlt⟩
    | posInf => cases hlt
    | negInf => cases hlt
    | nan => cases hlt
  · rintro ⟨r, rfl, hlt⟩
    exact decide_eq_true hlt

/-- Each entry of a vector is at most its Euclidean norm. -/
theorem abs_lt_one_of_rootSumSquares (h : Scalar.lt (rootSumSquares xs) 1 = true) :
    ∀ x ∈ xs, Scalar.lt (Scalar.abs x) 1 = true := by
  rcases rootSumSquares_cases xs with ⟨n, r, rfl⟩ | hroot | hroot
  · intro x hx
    obtain ⟨i, rfl⟩ := (List.mem_ofFn ..).mp hx
    rw [rootSumSquares_vector, one_eq, lt_real, decide_eq_true_eq, Real.sqrt_lt' one_pos,
      one_pow] at h
    have hentry : r i * r i ≤ r ⬝ᵥ r :=
      Finset.single_le_sum (fun j _ => mul_self_nonneg (r j)) (Finset.mem_univ i)
    refine (abs_lt_one_iff _).mpr ⟨r i, rfl, ?_⟩
    rw [← sq_lt_one_iff_abs_lt_one, sq]
    exact hentry.trans_lt h
  · rw [hroot, posInf_lt] at h
    cases h
  · rw [hroot, nan_lt] at h
    cases h

/-- The mean of squares below one is below one. -/
theorem rootMeanSquare_lt_one_of_abs (h : ∀ x ∈ xs, Scalar.lt (Scalar.abs x) 1 = true) :
    Scalar.lt (rootMeanSquare xs) 1 = true := by
  rcases eq_or_ne xs [] with rfl | hne
  · exact decide_eq_true one_pos
  have hfinite : xs.all Scalar.isFinite = true := List.all_eq_true.mpr fun x hx => by
    obtain ⟨r, rfl, -⟩ := (abs_lt_one_iff x).mp (h x hx)
    rfl
  obtain ⟨r, hr⟩ := exists_vector_of_all rfl hfinite
  have hentry (i : Fin xs.length) : r i * r i < 1 := by
    have hmem : real (r i) ∈ xs := hr ▸ (List.mem_ofFn ..).mpr ⟨i, rfl⟩
    obtain ⟨s, hs, hlt⟩ := (abs_lt_one_iff _).mp (h _ hmem)
    obtain rfl := real.inj hs
    rw [← sq]
    exact (sq_lt_one_iff_abs_lt_one _).mpr hlt
  have hcount : (0 : ℝ) < xs.length := Nat.cast_pos.mpr (List.length_pos_of_ne_nil hne)
  have hsum : r ⬝ᵥ r < xs.length := by
    have hnonempty : (Finset.univ : Finset (Fin xs.length)).Nonempty :=
      ⟨⟨0, List.length_pos_of_ne_nil hne⟩, Finset.mem_univ _⟩
    calc r ⬝ᵥ r < ∑ _i : Fin xs.length, (1 : ℝ) :=
          Finset.sum_lt_sum_of_nonempty hnonempty fun i _ => hentry i
      _ = xs.length := by simp
  have hroot : 0 < Real.sqrt xs.length := Real.sqrt_pos.mpr hcount
  have hsquares : rootSumSquares xs = real (Real.sqrt (r ⬝ᵥ r)) :=
    (congrArg rootSumSquares hr).trans (rootSumSquares_vector r)
  rw [rootMeanSquare_of_ne_nil hne, hsquares, ofNat_eq, sqrt_real hcount.le, real_div _ hroot.ne',
    one_eq, lt_real, decide_eq_true_eq, div_lt_one hroot]
  exact Real.sqrt_lt_sqrt (dotProduct_self_nonneg r) hsum

/-- Below a bound above zero a change is measured as it is. -/
theorem abs_div_lt_one_iff {b : Exact} (hb : Scalar.lt 0 b = true) (d : Exact) :
    Scalar.lt (Scalar.abs (d / b)) 1 = true ↔ Scalar.lt (Scalar.abs d) b = true := by
  cases b with
  | real b =>
      have hpos : 0 < b := of_decide_eq_true hb
      have hinfinite : ¬b < 0 := not_lt.mpr hpos.le
      cases d with
      | real x =>
          rw [real_div x hpos.ne', abs_real, abs_real, one_eq, lt_real, lt_real, decide_eq_true_eq,
            decide_eq_true_eq, abs_div, abs_of_pos hpos, div_lt_one hpos]
      | posInf =>
          have hquotient : posInf / real b = posInf := if_neg hinfinite
          rw [hquotient]
          rfl
      | negInf =>
          have hquotient : negInf / real b = negInf := if_neg hinfinite
          rw [hquotient]
          rfl
      | nan => exact Iff.rfl
  | posInf =>
      cases d with
      | real x =>
          have hquotient : real x / posInf = real 0 := rfl
          rw [hquotient, abs_real, abs_zero]
          exact iff_of_true (decide_eq_true one_pos) rfl
      | posInf => exact Iff.rfl
      | negInf => exact Iff.rfl
      | nan => exact Iff.rfl
  | negInf => cases hb
  | nan => cases hb

end Norms

section Tests

variable {κ : Type} {tolerance : Tolerance Exact}

theorem leavesSettled_max_iff {ds xs : List Exact} :
    leavesSettled tolerance .max ds xs = true ↔
      ∀ p ∈ ds.zip xs, Scalar.lt (Scalar.abs (p.1 / tolerance.bound p.2)) 1 = true := by
  rw [leavesSettled, Norm.ofLeaves, maxMagnitude_lt_one]
  refine ⟨fun h p hp => h _ (mem_zipWith_iff.mpr ⟨p, hp, rfl⟩), fun h z hz => ?_⟩
  obtain ⟨p, hp, rfl⟩ := mem_zipWith_iff.mp hz
  exact h p hp

/-- Under the largest magnitude, and with bounds above zero, the leaves are compared one by one. -/
theorem leavesSettled_max_iff_forall₂ {ds xs : List Exact} (hlength : ds.length = xs.length)
    (hbounds : ∀ x ∈ xs, Scalar.lt 0 (tolerance.bound x) = true) :
    leavesSettled tolerance .max ds xs = true ↔
      List.Forall₂ (fun d x => Scalar.lt (Scalar.abs d) (tolerance.bound x) = true) ds xs := by
  rw [leavesSettled_max_iff, List.forall₂_iff_zip, and_iff_right hlength]
  have hmeasured {d x : Exact} (hpair : (d, x) ∈ ds.zip xs) :=
    abs_div_lt_one_iff (hbounds x (List.of_mem_zip hpair).2) d
  exact ⟨fun h d x hpair => (hmeasured hpair).mp (h (d, x) hpair),
    fun h p hp => (hmeasured hp).mpr (h hp)⟩

/-- **Nested tests.** Whatever the trees, the tolerances, the objectives and the status are, special
values included: if the test says to stop under the Euclidean norm, it does so under the largest
magnitude, and if under the largest magnitude, then under the root of the mean square. The bound next to
a value is the absolute tolerance and the relative one times its magnitude. Where the bounds next to the
leaves are above zero, the test under the largest magnitude says to stop after a success exactly when the
change of every leaf is below its bound, and that of the objective below its own. -/
theorem stopping_nested (tolerance : Tolerance Exact) (y diff : Tree κ Exact) (f g : Exact)
    (status : Status) :
    (stopping tolerance .two y diff f g status = .ok (true, status) →
        stopping tolerance .max y diff f g status = .ok (true, status)) ∧
      (stopping tolerance .max y diff f g status = .ok (true, status) →
        stopping tolerance .rms y diff f g status = .ok (true, status)) ∧
      ((∀ x ∈ y.leaves,
          Scalar.lt 0 (tolerance.absolute + tolerance.relative * Scalar.abs x) = true) →
        (stopping tolerance .max y diff f g .successful = .ok (true, .successful) ↔
          List.Forall₂ (fun d x => Scalar.lt (Scalar.abs d)
              (tolerance.absolute + tolerance.relative * Scalar.abs x) = true) diff.leaves y.leaves ∧
            Scalar.lt (Scalar.abs (f - g))
              (tolerance.absolute + tolerance.relative * Scalar.abs f) = true)) := by
  rw [stopping_eq_true_iff, stopping_eq_true_iff, stopping_eq_true_iff, stopping_eq_true_iff]
  refine ⟨fun h hstatus => ?_, fun h hstatus => ?_, fun hbounds => ?_⟩
  · obtain ⟨hsize, hleaves, hobjective⟩ := h hstatus
    exact ⟨hsize, (maxMagnitude_lt_one _).mpr (abs_lt_one_of_rootSumSquares hleaves), hobjective⟩
  · obtain ⟨hsize, hleaves, hobjective⟩ := h hstatus
    exact ⟨hsize, rootMeanSquare_lt_one_of_abs ((maxMagnitude_lt_one _).mp hleaves), hobjective⟩
  · constructor
    · intro h
      obtain ⟨hsize, hleaves, hobjective⟩ := h rfl
      have hlength := leaves_length_eq_iff.mpr hsize
      exact ⟨(leavesSettled_max_iff_forall₂ hlength hbounds).mp hleaves, hobjective⟩
    · rintro ⟨hleaves, hobjective⟩ -
      have hlength := hleaves.length_eq
      exact ⟨leaves_length_eq_iff.mp hlength,
        (leavesSettled_max_iff_forall₂ hlength hbounds).mpr hleaves, hobjective⟩

/-- Two leaves at one and minus three, with a relative tolerance of one half and an absolute one of one
quarter. Moved by half of its bound each they are settled under every norm; moved by three quarters of
it they are settled under the largest magnitude, and so under the mean. -/
theorem stopping_nested_halves :
    let loose : Tolerance Exact := ⟨real (1 / 2), real (1 / 4)⟩
    let pair (a b : ℝ) : Tree Unit Exact := .array .growable [real a, real b]
    let y := pair 1 (-3)
    let half := pair (3 / 8) (7 / 8)
    let most := pair (9 / 16) (21 / 16)
    (stopping loose .two y half (real 2) (real 1) .successful = .ok (true, .successful) ∧
        stopping loose .max y half (real 2) (real 1) .successful = .ok (true, .successful)) ∧
      stopping loose .max y most (real 2) (real 1) .successful = .ok (true, .successful) ∧
      stopping loose .rms y most (real 2) (real 1) .successful = .ok (true, .successful) := by
  intro loose pair y half most
  have hbound (x : ℝ) : loose.bound (real x) = real (1 / 4 + 1 / 2 * |x|) := by
    simp [loose, Tolerance.bound]
  have hfirst : (1 / 4 + 1 / 2 * |1| : ℝ) = 3 / 4 := by norm_num
  have hsecond : (1 / 4 + 1 / 2 * |-3| : ℝ) = 7 / 4 := by norm_num
  have hobjective : Scalar.lt (Scalar.abs (real 2 - real 1)) (loose.bound (real 2)) = true := by
    rw [hbound]
    norm_num
  have htwo : stopping loose .two y half (real 2) (real 1) .successful = .ok (true, .successful) := by
    refine stopping_eq_true_iff.mpr fun _ => ⟨rfl, ?_, hobjective⟩
    have hscaled : List.zipWith (fun d x => d / loose.bound x) half.leaves y.leaves =
        vector ![1 / 2, 1 / 2] := by
      have hthree : (3 / 4 : ℝ) ≠ 0 := by norm_num
      have hseven : (7 / 4 : ℝ) ≠ 0 := by norm_num
      show [real (3 / 8) / loose.bound (real 1), real (7 / 8) / loose.bound (real (-3))] = _
      rw [hbound, hbound, hfirst, hsecond, real_div _ hthree, real_div _ hseven]
      norm_num [vector]
    rw [leavesSettled, hscaled, Norm.ofLeaves, rootSumSquares_vector, one_eq, lt_real,
      decide_eq_true_eq, Real.sqrt_lt' one_pos]
    norm_num [dotProduct, Fin.sum_univ_two]
  have hleaves : y.leaves = [real 1, real (-3)] := rfl
  have hmost : most.leaves = [real (9 / 16), real (21 / 16)] := rfl
  have hmax : stopping loose .max y most (real 2) (real 1) .successful = .ok (true, .successful) := by
    refine ((stopping_nested loose y most (real 2) (real 1) .successful).2.2 ?_).mpr
      ⟨?_, hobjective⟩
    · intro x hx
      rw [hleaves, List.mem_pair] at hx
      rcases hx with rfl | rfl
      · exact decide_eq_true (hfirst ▸ by norm_num)
      · exact decide_eq_true (hsecond ▸ by norm_num)
    · rw [hleaves, hmost]
      refine .cons ?_ (.cons ?_ .nil)
      · exact decide_eq_true (hfirst ▸ by norm_num)
      · exact decide_eq_true (hsecond ▸ by norm_num)
  exact ⟨⟨htwo, (stopping_nested loose y half (real 2) (real 1) .successful).1 htwo⟩, hmax,
    (stopping_nested loose y most (real 2) (real 1) .successful).2.1 hmax⟩

end Tests

end LeastSquares
