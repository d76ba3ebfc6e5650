import Mathlib.Tactic.Positivity
import LeastSquares.Iteration.GaussNewton
import LeastSquares.Proofs.Exact.Vector
import LeastSquares.Proofs.Iteration.Trajectory

/-!
# The stopping test in exact arithmetic

The norms of this library measure a change of zero as zero, so a point that has not moved at all is
settled, whatever its scale. What is then left of the test is a comparison of two real objectives, and
an objective that is not known yet, which is infinity, settles nothing.
-/

namespace LeastSquares

open Matrix Exact LeastSquares.Tree

/-- One of the norms of this library. -/
def Norm.IsBuiltIn {α : Type} : Norm α → Prop
  | .custom _ => False
  | _ => True

theorem rootMeanSquare_of_ne_nil {α : Type} [Scalar α] {xs : List α} (h : xs ≠ []) :
    rootMeanSquare xs = rootSumSquares xs / Scalar.sqrt (Scalar.ofNat xs.length) :=
  if_neg (by simpa using h)

variable {κ Aux : Type} {relative absolute : ℝ} {norm : Norm Exact}

theorem maxMagnitude_zeros (n : Nat) : maxMagnitude (vector (0 : Fin n → ℝ)) = real 0 := by
  unfold maxMagnitude
  induction n with
  | zero => rfl
  | succ n ih =>
      have hstep : maxMagnitudeStep 0 (real 0) = 0 := by
        simp [maxMagnitudeStep, Scalar.max]
      rw [vector_succ, List.foldl_cons, Pi.zero_apply, hstep]
      exact ih

theorem rootSumSquares_zeros (n : Nat) : rootSumSquares (vector (0 : Fin n → ℝ)) = real 0 := by
  rw [rootSumSquares, sumSquaresOf_vector, dotProduct_zero, sqrt_real le_rfl, Real.sqrt_zero]

theorem rootMeanSquare_zeros (n : Nat) : rootMeanSquare (vector (0 : Fin n → ℝ)) = real 0 := by
  unfold rootMeanSquare
  split
  · rfl
  · rename_i hne
    have hn : n ≠ 0 := fun h => hne (by simp [vector, h])
    have hroot : Real.sqrt n ≠ 0 :=
      (Real.sqrt_pos.mpr (Nat.cast_pos.mpr (Nat.pos_of_ne_zero hn))).ne'
    rw [rootSumSquares_zeros, vector_length, ofNat_eq, sqrt_real (Nat.cast_nonneg n),
      real_div 0 hroot, zero_div]

theorem ofLeaves_zeros (hnorm : norm.IsBuiltIn) (n : Nat) :
    norm.ofLeaves (vector (0 : Fin n → ℝ)) = real 0 := by
  cases norm with
  | max => exact maxMagnitude_zeros n
  | rms => exact rootMeanSquare_zeros n
  | two => exact rootSumSquares_zeros n
  | custom measure => exact hnorm.elim

/-- A point that has not moved at all is settled. -/
theorem pointSettled_zero (hrelative : 0 ≤ relative) (habsolute : 0 < absolute)
    (hnorm : norm.IsBuiltIn) (s : Tree κ Exact) (x : Fin s.size → ℝ) :
    pointSettled ⟨real relative, real absolute⟩ norm (s.withReals x) (s.withReals 0) =
      .ok true := by
  have hscaled : List.zipWith (fun d x => d / Tolerance.bound ⟨real relative, real absolute⟩ x)
      (vector (0 : Fin s.size → ℝ)) (vector x) = vector (0 : Fin s.size → ℝ) := by
    have hbound (d x : ℝ) : real d / Tolerance.bound ⟨real relative, real absolute⟩ (real x) =
        real (d / (absolute + relative * |x|)) := by
      simp only [Tolerance.bound, abs_real, real_mul, real_add]
      exact real_div d (by positivity)
    rw [zipWith_vector (f := fun d x => d / Tolerance.bound ⟨real relative, real absolute⟩ x) hbound]
    congr 1
    funext i
    simp
  unfold pointSettled
  rw [zipWith_eq_ok _ (by simp), leaves_withReals, leaves_withReals, hscaled]
  rw [withLeaves_withReals, ← withReals, Outcome.ok_bind, Norm.apply, leaves_withReals,
    ofLeaves_zeros hnorm]
  simp

/-- The test of the point gives some answer for a change of the same skeleton. -/
theorem pointSettled_eq_ok {α : Type} [Scalar α] (tolerance : Tolerance α) (norm : Norm α)
    {y diff : Tree κ α} (h : diff.size = y.size) :
    ∃ settled, pointSettled tolerance norm y diff = .ok settled := by
  unfold pointSettled
  rw [zipWith_eq_ok _ h]
  exact ⟨_, rfl⟩

/-- Against an objective that is not known yet nothing is settled. -/
theorem objectiveSettled_posInf (tolerance : Tolerance Exact) (f : Exact) :
    objectiveSettled tolerance f posInf = false := by
  have hdiff : Scalar.abs (f - posInf) = posInf ∨ Scalar.abs (f - posInf) = nan := by
    cases f with
    | real x => exact .inl rfl
    | posInf => exact .inr rfl
    | negInf => exact .inl rfl
    | nan => exact .inr rfl
  unfold objectiveSettled
  rcases hdiff with h | h
  · rw [h, posInf_lt]
  · rw [h, nan_lt]

theorem objectiveSettled_real (f g : ℝ) :
    objectiveSettled ⟨real relative, real absolute⟩ (real f) (real g) =
      decide (|f - g| < absolute + relative * |f|) := by
  simp [objectiveSettled, Tolerance.bound]

variable {α : Type} [Scalar α] {method : GaussNewton κ α Aux} {y : Tree κ α}
  {state : GaussNewtonState κ α}

/-- At a point that is settled the objective decides. -/
theorem stop_of_settled (hstatus : state.status = .successful)
    (hsettled : pointSettled method.tolerance method.norm y state.diff = .ok true) :
    method.stop y state =
      .ok (objectiveSettled method.tolerance state.objective state.previous, .successful) := by
  simp [GaussNewton.stop, stopping, hstatus, hsettled]

/-- As long as the objective before is not known the test says to go on. -/
theorem goesOn_of_posInf {method : GaussNewton κ Exact Aux} {residual : Residual κ Exact Aux}
    {tags : Tags} {y : Tree κ Exact} {k : Nat} {it : Iterate κ Exact Aux (GaussNewtonState κ Exact)}
    (hit : method.toSolver.iterateAt residual tags y k = .ok it)
    (hstatus : it.state.status = .successful) (hdiff : it.state.diff.size = it.point.size)
    (hprevious : it.state.previous = posInf) :
    method.toSolver.GoesOnAt residual tags y k := by
  obtain ⟨settled, hsettled⟩ := pointSettled_eq_ok method.tolerance method.norm hdiff
  refine ⟨it, .successful, hit, ?_⟩
  show method.stop it.point it.state = _
  simp [GaussNewton.stop, stopping, hstatus, hsettled, hprevious, objectiveSettled_posInf]

end LeastSquares
