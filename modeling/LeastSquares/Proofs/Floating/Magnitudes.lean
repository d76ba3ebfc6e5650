import LeastSquares.Proofs.Floating.Extended

/-!
# Largest magnitudes and sums of squares

What the two measures of leaves that all tests rest on make of arbitrary doubles. Both are no number
exactly if a leaf is. Otherwise the largest magnitude is one of the magnitudes, none is above it, and the
order of the leaves does not matter (`maxMagnitude_largest`). The sum of squares is then never below zero,
never below a square, and infinity if a leaf is infinite, so that a finite objective has finite leaves
only (`sumSquares_bounds`).

The largest magnitude needs its explicit test. A maximum drops what is no number on either side, so
without the test the leaf after it would hide it.
-/

namespace LeastSquares

open Scalar Scalar.Binary

section Largest

variable {α : Type} [Scalar α] [Binary α] {largest start x : α} {xs ys : List α}

/-- A magnitude that is the start or that of a member of the list, and below none of these. -/
structure IsLargest (largest start : α) (xs : List α) : Prop where
  mem : largest = start ∨ ∃ x ∈ xs, largest = Scalar.abs x
  isMagnitude : IsMagnitude largest
  start_le : toEReal start ≤ toEReal largest
  abs_le : ∀ x ∈ xs, toEReal (Scalar.abs x) ≤ toEReal largest

omit [Binary α] in
theorem maxMagnitudeStep_of_nan (h : isNaN largest = true ∨ isNaN x = true) :
    maxMagnitudeStep largest x = nan := by
  refine if_pos ?_
  rwa [Bool.or_eq_true]

/-- A step keeps the larger of two magnitudes, and the first of two that are equal. -/
theorem maxMagnitudeStep_isLargest (h : IsMagnitude start) (hx : isNaN x = false) :
    IsLargest (maxMagnitudeStep start x) start [x] := by
  have habs := isMagnitude_abs hx
  have hlt := lt_iff_toEReal h.isNaN_eq_false habs.isNaN_eq_false
  have hstep : maxMagnitudeStep start x = if lt start (Scalar.abs x) then Scalar.abs x else start := by
    rw [maxMagnitudeStep, h.isNaN_eq_false, hx, Scalar.max, h.isNaN_eq_false, Bool.false_or]
    rfl
  rw [hstep]
  split
  · rename_i hbelow
    exact ⟨.inr ⟨x, List.mem_singleton_self x, rfl⟩, habs, (hlt.mp hbelow).le,
      fun y hy => (List.mem_singleton.mp hy) ▸ le_rfl⟩
  · rename_i hbelow
    exact ⟨.inl rfl, h, le_rfl,
      fun y hy => (List.mem_singleton.mp hy) ▸ not_lt.mp (mt hlt.mpr hbelow)⟩

/-- The induction is on the leaves that are left, from the largest magnitude so far. -/
theorem foldl_maxMagnitudeStep_isLargest (h : IsMagnitude start) (hall : ∀ x ∈ xs, isNaN x = false) :
    IsLargest (xs.foldl maxMagnitudeStep start) start xs := by
  induction xs generalizing start with
  | nil => exact ⟨.inl rfl, h, le_rfl, fun x hx => absurd hx List.not_mem_nil⟩
  | cons y ys ih =>
      have hstep := maxMagnitudeStep_isLargest h (hall y List.mem_cons_self)
      have hrest := ih hstep.isMagnitude fun x hx => hall x (List.mem_cons_of_mem y hx)
      rw [List.foldl_cons]
      refine ⟨?_, hrest.isMagnitude, hstep.start_le.trans hrest.start_le, fun x hx => ?_⟩
      · rcases hrest.mem with hrest | ⟨x, hx, hrest⟩
        · rw [hrest]
          refine hstep.mem.imp_right fun ⟨z, hz, hstep⟩ => ⟨y, List.mem_cons_self, ?_⟩
          rwa [List.mem_singleton.mp hz] at hstep
        · exact .inr ⟨x, List.mem_cons_of_mem y hx, hrest⟩
      · rcases List.mem_cons.mp hx with rfl | htail
        · exact (hstep.abs_le x (List.mem_singleton_self x)).trans hrest.start_le
        · exact hrest.abs_le x htail

theorem isMagnitude_zero : IsMagnitude (0 : α) := .inl ⟨isFinite_zero, toReal_zero.ge⟩

omit [Binary α] in
theorem forall_isNaN_eq_false (h : ¬∃ x ∈ xs, isNaN x = true) : ∀ x ∈ xs, isNaN x = false :=
  fun x hx => Bool.eq_false_iff.mpr fun hnan => h ⟨x, hx, hnan⟩

theorem maxMagnitude_isLargest (hall : ∀ x ∈ xs, isNaN x = false) :
    IsLargest (maxMagnitude xs) 0 xs := foldl_maxMagnitudeStep_isLargest isMagnitude_zero hall

/-- No largest magnitude is below that of an infinity. -/
theorem unpacked_maxMagnitude_of_infinite (hall : ∀ x ∈ xs, isNaN x = false) (hx : x ∈ xs)
    (hinfinite : isFinite x = false) : unpacked (maxMagnitude xs) = .infinity .positive := by
  have hlargest := maxMagnitude_isLargest hall
  obtain ⟨s, hs⟩ := (finite_or_infinity (hall x hx)).resolve_left (Bool.eq_false_iff.mp hinfinite)
  have habs := toEReal_of_posInfinity (unpacked_abs_of_infinity hs)
  exact hlargest.isMagnitude.eq_posInfinity (top_le_iff.mp (habs ▸ hlargest.abs_le x hx))

/-- More leaves do not make the largest magnitude smaller, in whatever order they are. -/
theorem toEReal_maxMagnitude_mono (hsub : ∀ x ∈ xs, x ∈ ys) (hall : ∀ y ∈ ys, isNaN y = false) :
    toEReal (maxMagnitude xs) ≤ toEReal (maxMagnitude ys) := by
  have hys := maxMagnitude_isLargest hall
  rcases (maxMagnitude_isLargest fun x hx => hall x (hsub x hx)).mem with h | ⟨x, hx, h⟩
  · rw [h]
    exact hys.start_le
  · rw [h]
    exact hys.abs_le x (hsub x hx)

end Largest

section Leaves

variable {xs ys : List Float}

theorem eq_nan_of_isNaN {x : Float} (h : isNaN x = true) : x = nan :=
  eq_of_unpacked ((unpacked_of_isNaN h).trans (unpacked_of_isNaN rfl).symm)

/-- What is no number stays the largest magnitude. -/
theorem isNaN_foldl_maxMagnitudeStep {start : Float}
    (h : isNaN start = true ∨ ∃ x ∈ xs, isNaN x = true) :
    isNaN (xs.foldl maxMagnitudeStep start) = true := by
  induction xs generalizing start with
  | nil => exact h.resolve_right fun ⟨x, hx, _⟩ => List.not_mem_nil hx
  | cons y ys ih =>
      have hstep (h : isNaN start = true ∨ isNaN y = true) :
          isNaN (maxMagnitudeStep start y) = true := by
        rw [maxMagnitudeStep_of_nan h]
        rfl
      refine ih ?_
      rcases h with h | ⟨x, hx, hnan⟩
      · exact .inl (hstep (.inl h))
      · rcases List.mem_cons.mp hx with rfl | htail
        · exact .inl (hstep (.inr hnan))
        · exact .inr ⟨x, htail, hnan⟩

theorem zero_eq_abs : (0 : Float) = Scalar.abs 0 :=
  eq_of_unpacked (by rw [unpacked_abs, zero_eq]; rfl)

/-- The largest magnitude of numbers is a magnitude, and of some leaf if there is one. -/
theorem exists_maxMagnitude_eq_abs (hall : ∀ x ∈ xs, isNaN x = false) :
    (∃ z, isNaN z = false ∧ maxMagnitude xs = Scalar.abs z) ∧
      (xs ≠ [] → ∃ x ∈ xs, maxMagnitude xs = Scalar.abs x) := by
  have hlargest := maxMagnitude_isLargest hall
  have hzero : isNaN (0 : Float) = false := isMagnitude_zero.isNaN_eq_false
  rcases hlargest.mem with hstart | ⟨x, hx, heq⟩
  · refine ⟨⟨0, hzero, hstart.trans zero_eq_abs⟩, fun hne => ?_⟩
    obtain ⟨x, hx⟩ := List.exists_mem_of_ne_nil xs hne
    -- No magnitude is above zero, so that of any leaf is zero.
    have habs : toEReal (Scalar.abs x) = toEReal (Scalar.abs (0 : Float)) := by
      refine le_antisymm ?_ ?_
      · rw [← zero_eq_abs, ← hstart]
        exact hlargest.abs_le x hx
      · rw [← zero_eq_abs, toEReal_of_finite isFinite_zero, toReal_zero]
        exact (isMagnitude_abs (hall x hx)).toEReal_nonneg
    exact ⟨x, hx, hstart.trans (zero_eq_abs.trans (abs_eq_of_toEReal (hall x hx) hzero habs).symm)⟩
  · exact ⟨⟨x, hall x hx, heq⟩, fun _ => ⟨x, hx, heq⟩⟩

theorem isNaN_maxMagnitude_iff : isNaN (maxMagnitude xs) = true ↔ ∃ x ∈ xs, isNaN x = true := by
  refine ⟨fun hnan => ?_, fun h => isNaN_foldl_maxMagnitudeStep (.inr h)⟩
  by_contra hnone
  have hlargest := maxMagnitude_isLargest (forall_isNaN_eq_false hnone)
  rw [hlargest.isMagnitude.isNaN_eq_false] at hnan
  cases hnan

/-- The leaves alone decide, whatever their order is. -/
theorem maxMagnitude_congr (h : ∀ x, x ∈ xs ↔ x ∈ ys) : maxMagnitude xs = maxMagnitude ys := by
  by_cases hnan : ∃ x ∈ xs, isNaN x = true
  · obtain ⟨x, hx, hx'⟩ := hnan
    rw [eq_nan_of_isNaN (isNaN_maxMagnitude_iff.mpr ⟨x, hx, hx'⟩),
      eq_nan_of_isNaN (isNaN_maxMagnitude_iff.mpr ⟨x, (h x).mp hx, hx'⟩)]
  · have hxs := forall_isNaN_eq_false hnan
    have hys : ∀ y ∈ ys, isNaN y = false := fun y hy => hxs y ((h y).mpr hy)
    obtain ⟨z, hz, hxs'⟩ := (exists_maxMagnitude_eq_abs hxs).1
    obtain ⟨z', hz', hys'⟩ := (exists_maxMagnitude_eq_abs hys).1
    have hsame : toEReal (maxMagnitude xs) = toEReal (maxMagnitude ys) :=
      le_antisymm (toEReal_maxMagnitude_mono (fun x hx => (h x).mp hx) hys)
        (toEReal_maxMagnitude_mono (fun y hy => (h y).mpr hy) hxs)
    rw [hxs', hys'] at hsame ⊢
    exact abs_eq_of_toEReal hz hz' hsame

/-- **The largest magnitude.** It is no number exactly if a leaf is, wherever that leaf stands. If all
leaves are numbers, infinities included, then it is at least the magnitude of every leaf, and it is the
magnitude of some leaf if there is any. Without leaves it is zero. The order of the leaves does not
matter. -/
theorem maxMagnitude_largest (xs : List Float) :
    (isNaN (Norm.max.ofLeaves xs) = true ↔ ∃ x ∈ xs, isNaN x = true) ∧
      ((∀ x ∈ xs, isNaN x = false) →
        (xs = [] → Norm.max.ofLeaves xs = 0) ∧
        (∀ x ∈ xs, le (Scalar.abs x) (Norm.max.ofLeaves xs) = true) ∧
        (xs ≠ [] → ∃ x ∈ xs, Norm.max.ofLeaves xs = Scalar.abs x)) ∧
      ∀ ys, ys.Perm xs → Norm.max.ofLeaves ys = Norm.max.ofLeaves xs := by
  refine ⟨isNaN_maxMagnitude_iff, fun hall => ⟨?_, fun x hx => ?_, ?_⟩, fun ys hperm => ?_⟩
  · rintro rfl
    rfl
  · have hlargest := maxMagnitude_isLargest hall
    exact (le_iff_toEReal (isMagnitude_abs (hall x hx)).isNaN_eq_false
      hlargest.isMagnitude.isNaN_eq_false).mpr (hlargest.abs_le x hx)
  · exact (exists_maxMagnitude_eq_abs hall).2
  · exact maxMagnitude_congr fun x => hperm.mem_iff

/-- Minus infinity has the largest magnitude, in front or behind, and what is no number is not lost
between numbers. -/
theorem maxMagnitude_largest_infinity :
    (∀ x ∈ [2, -infinity], isNaN (x : Float) = false) ∧
      le (Scalar.abs (-infinity : Float)) (Norm.max.ofLeaves [2, -infinity]) = true ∧
      (∃ x ∈ [2, -infinity], Norm.max.ofLeaves [2, -infinity] = Scalar.abs (x : Float)) ∧
      Norm.max.ofLeaves [-infinity, 2] = Norm.max.ofLeaves [2, (-infinity : Float)] ∧
      isNaN (Norm.max.ofLeaves [1, nan, (2 : Float)]) = true := by
  have hnumbers : ∀ x ∈ [2, -infinity], isNaN (x : Float) = false := by decide +kernel
  obtain ⟨-, hle, hattained⟩ := (maxMagnitude_largest [2, -infinity]).2.1 hnumbers
  have hnan : ∃ x ∈ [1, nan, 2], isNaN (x : Float) = true :=
    ⟨nan, List.mem_cons_of_mem 1 List.mem_cons_self, rfl⟩
  exact ⟨hnumbers, hle _ (List.mem_cons_of_mem 2 List.mem_cons_self), hattained (List.cons_ne_nil _ _),
    (maxMagnitude_largest [2, -infinity]).2.2 _ (List.Perm.swap _ _ _),
    (maxMagnitude_largest [1, nan, 2]).1.mpr hnan⟩

end Leaves

section Squares

variable {α : Type} [Scalar α] [Binary α] {x : α} {xs : List α}

/-- The squares of numbers are added up from minus zero, which is not below zero either. -/
theorem sumSquaresOf_isMagnitude (hall : ∀ x ∈ xs, isNaN x = false) :
    IsMagnitude (sumSquaresOf xs) ∧ ∀ x ∈ xs, toEReal (x * x) ≤ toEReal (sumSquaresOf xs) := by
  have hstart : IsMagnitude (negZero : α) := .inl ⟨isFinite_negZero, toReal_negZero.ge⟩
  have hsquares : ∀ z ∈ xs.map fun x => x * x, IsMagnitude z := by
    intro z hz
    obtain ⟨x, hx, rfl⟩ := List.mem_map.mp hz
    exact isMagnitude_mul_self (hall x hx)
  obtain ⟨hsum, -, hterms⟩ := foldl_add_isMagnitude hstart hsquares
  exact ⟨hsum, fun x hx => hterms (x * x) (List.mem_map_of_mem hx)⟩

theorem isNaN_sumSquaresOf_iff : isNaN (sumSquaresOf xs) = true ↔ ∃ x ∈ xs, isNaN x = true := by
  constructor
  · intro hnan
    by_contra hnone
    rw [(sumSquaresOf_isMagnitude (forall_isNaN_eq_false hnone)).1.isNaN_eq_false] at hnan
    cases hnan
  · rintro ⟨x, hx, hnan⟩
    have hsquare := unpacked_mul_of_nan (y := x) (.inl (unpacked_of_isNaN hnan))
    exact isNaN_foldl_add (.inr ⟨x * x, List.mem_map_of_mem hx, isNaN_of_unpacked hsquare⟩)

/-- The square of an infinity is infinity, and no sum of squares is below it. -/
theorem unpacked_sumSquaresOf_of_infinite (hall : ∀ x ∈ xs, isNaN x = false) (hx : x ∈ xs)
    (hinfinite : isFinite x = false) : unpacked (sumSquaresOf xs) = .infinity .positive := by
  obtain ⟨hsum, hterms⟩ := sumSquaresOf_isMagnitude hall
  obtain ⟨s, hs⟩ := (finite_or_infinity (hall x hx)).resolve_left (Bool.eq_false_iff.mp hinfinite)
  have hsquare := toEReal_of_posInfinity (unpacked_mul_self_of_infinity hs)
  exact hsum.eq_posInfinity (top_le_iff.mp (hsquare ▸ hterms x hx))

/-- **The sum of squares.** It is no number exactly if a leaf is. If all leaves are numbers, infinities
included, then it is not below zero, it is infinity if some leaf is infinite, and it is at least the
square of every leaf, as it is rounded. So a sum of squares that is finite has finite leaves only. -/
theorem sumSquares_bounds {κ : Type} (t : Tree κ Float) :
    (isNaN (sumSquares t) = true ↔ ∃ x ∈ t.leaves, isNaN x = true) ∧
      ((∀ x ∈ t.leaves, isNaN x = false) →
        le 0 (sumSquares t) = true ∧
        ((∃ x ∈ t.leaves, isFinite x = false) → sumSquares t = infinity) ∧
        ∀ x ∈ t.leaves, le (x * x) (sumSquares t) = true) ∧
      (isFinite (sumSquares t) = true → ∀ x ∈ t.leaves, isFinite x = true) := by
  refine ⟨isNaN_sumSquaresOf_iff, fun hall => ?_, isFinite_of_sumSquaresOf⟩
  obtain ⟨hsum, hterms⟩ := sumSquaresOf_isMagnitude hall
  refine ⟨?_, ?_, fun x hx => ?_⟩
  · refine (le_iff_toEReal isMagnitude_zero.isNaN_eq_false hsum.isNaN_eq_false).mpr ?_
    rw [toEReal_of_finite isFinite_zero, toReal_zero]
    exact hsum.toEReal_nonneg
  · rintro ⟨x, hx, hinfinite⟩
    exact eq_of_unpacked
      ((unpacked_sumSquaresOf_of_infinite hall hx hinfinite).trans infinity_eq.symm)
  · exact (le_iff_toEReal (isMagnitude_mul_self (hall x hx)).isNaN_eq_false
      hsum.isNaN_eq_false).mpr (hterms x hx)

/-- Infinities of opposite signs do not cancel. -/
theorem sumSquares_bounds_infinities :
    let t : Tree Unit Float := .tuple [.scalar (-3), .array .growable [infinity, -infinity]]
    (∀ x ∈ t.leaves, isNaN x = false) ∧ sumSquares t = infinity ∧
      le (-3 * -3) (sumSquares t) = true ∧
      isFinite (sumSquares (.array .fixed [3, 4] : Tree Unit Float)) = true ∧
      ∀ x ∈ [(3 : Float), 4], isFinite x = true := by
  intro t
  have hnumbers : ∀ x ∈ t.leaves, isNaN x = false := by decide +kernel
  have hfinite : isFinite (sumSquares (.array .fixed [3, 4] : Tree Unit Float)) = true := by
    decide +kernel
  obtain ⟨-, hinfinite, hsquares⟩ := (sumSquares_bounds t).2.1 hnumbers
  refine ⟨hnumbers, hinfinite ⟨infinity, ?_, by decide +kernel⟩, hsquares (-3) List.mem_cons_self,
    hfinite, (sumSquares_bounds (.array .fixed [3, 4] : Tree Unit Float)).2.2 hfinite⟩
  exact List.mem_cons_of_mem _ List.mem_cons_self

end Squares

end LeastSquares
