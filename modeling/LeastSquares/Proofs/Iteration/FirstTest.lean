import LeastSquares.Proofs.Exact.Stopping

/-!
# The first test of a run

Before the first step nothing has been measured: both objectives of the state are infinity. Their
difference is no number, and what is no number is below nothing. So the first test of every run says to
go on, whatever the tolerances and the norm. This is all that is asked of the special values of a type
of scalars; exact arithmetic has it like floating point.
-/

namespace LeastSquares

/-- Scalars on which what is no number behaves as in floating point. -/
class Scalar.LawfulNaN (α : Type) [Scalar α] : Prop where
  isNaN_infinity_sub_infinity : isNaN (infinity - infinity : α) = true
  isNaN_abs {x : α} : isNaN x = true → isNaN (abs x) = true
  lt_eq_false {x : α} (y : α) : isNaN x = true → lt x y = false

instance : Scalar.LawfulNaN Exact where
  isNaN_infinity_sub_infinity := rfl
  isNaN_abs {x} h := by cases x <;> exact h
  lt_eq_false {x} y h := by
    cases x with
    | nan => exact Exact.nan_lt y
    | real x => cases h
    | posInf => cases h
    | negInf => cases h

variable {κ α Aux : Type} [Scalar α] [Scalar.LawfulNaN α]

/-- Two objectives that are not known yet settle nothing. -/
theorem objectiveSettled_infinity (tolerance : Tolerance α) :
    objectiveSettled tolerance Scalar.infinity Scalar.infinity = false := by
  have hdifference := Scalar.LawfulNaN.isNaN_infinity_sub_infinity (α := α)
  exact Scalar.LawfulNaN.lt_eq_false _ (Scalar.LawfulNaN.isNaN_abs hdifference)

namespace GaussNewton

/-- The first test of a run says to go on. -/
theorem stop_start (method : GaussNewton κ α Aux) (y : Tree κ α) :
    method.stop y (start y) = .ok (false, .successful) := by
  have hsize : (start y).diff.size = y.size := Tree.size_withLeaves y _
  obtain ⟨settled, hsettled⟩ := pointSettled_eq_ok method.tolerance method.norm hsize
  have hobjective := objectiveSettled_infinity method.tolerance
  simp only [stop, stopping, hsettled, Outcome.ok_bind]
  simp [start, hobjective, Status.isSuccessful]

omit [Scalar.LawfulNaN α] in
/-- A run begins without a step. -/
theorem iterateAt_zero (method : GaussNewton κ α Aux) (residual : Residual κ α Aux) (tags : Tags)
    (y : Tree κ α) :
    method.toSolver.iterateAt residual tags y 0 = .ok ⟨y, start y, none, 0⟩ := rfl

theorem goesOn_start (method : GaussNewton κ α Aux) (residual : Residual κ α Aux) (tags : Tags)
    (y : Tree κ α) : method.toSolver.GoesOnAt residual tags y 0 :=
  ⟨_, .successful, iterateAt_zero method residual tags y, stop_start method y⟩

end GaussNewton

end LeastSquares
