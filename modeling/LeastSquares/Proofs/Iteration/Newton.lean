import LeastSquares.Iteration.GaussNewton
import LeastSquares.Proofs.Iteration.Trajectory

/-!
# Gauss–Newton with Newton's descent

The methods that are made of the parts of this library: a descent, above all Newton's, and one of the
two line searches. The step of any Gauss–Newton method is taken apart into the search at the present point and
what is kept of it.
-/

namespace LeastSquares

/-- One of the two line searches of this library. -/
inductive StandardSearch (α : Type)
  | fixed (search : FixedStep α)
  | backtracking (search : Backtracking α)

/-- One of the two line searches as a line search. -/
def StandardSearch.toLineSearch {κ α Aux : Type} [Scalar α] :
    StandardSearch α → LineSearch κ α Aux
  | .fixed search => search.toLineSearch
  | .backtracking search => search.toLineSearch

section Unthrown

variable {κ α Aux : Type} [Scalar α] (objective : Tree κ α → Checked (α × Aux))
  (descent : Descent κ α) (y : Tree κ α) (options : LineSearchOptions κ α Aux)

omit [Scalar α] in
/-- A search that throws nothing delivers what it found. -/
theorem deliver_unthrown (attempt : Outcome Error (LineSearchSolution κ α Aux)) :
    (do (← attempt).deliver false) = attempt := by
  cases attempt with
  | ok found => rfl
  | error failure => rfl

theorem StandardSearch.search_fixed (search : FixedStep α) :
    (StandardSearch.fixed search).toLineSearch.search objective descent y options false =
      search.attempt objective descent y options :=
  deliver_unthrown _

theorem StandardSearch.search_backtracking (search : Backtracking α) :
    (StandardSearch.backtracking search).toLineSearch.search objective descent y options false =
      search.attempt objective descent y options :=
  deliver_unthrown _

end Unthrown

namespace GaussNewton

variable {κ α Aux : Type} [Scalar α]

/-- The method of a descent and one of the two line searches. -/
def withSearch (tolerance : Tolerance α) (norm : Norm α) (descent : Descent κ α)
    (search : StandardSearch α) : GaussNewton κ α Aux :=
  { tolerance := tolerance
    norm := norm
    descent := descent
    lineSearch := search.toLineSearch }

/-- The method of Newton's descent and one of the two line searches. -/
def newton [Dense.Kernels α] (tolerance : Tolerance α) (norm : Norm α) (descent : NewtonDescent α)
    (search : StandardSearch α) : GaussNewton κ α Aux :=
  { tolerance := tolerance
    norm := norm
    descent := descent.toDescent
    lineSearch := search.toLineSearch }

theorem newton_eq_withSearch [Dense.Kernels α] (tolerance : Tolerance α) (norm : Norm α)
    (descent : NewtonDescent α) (search : StandardSearch α) :
    (newton tolerance norm descent search : GaussNewton κ α Aux) =
      withSearch tolerance norm descent.toDescent search := rfl

/-- The search of the step from a point and a state. -/
def searchAt (method : GaussNewton κ α Aux) (residual : Residual κ α Aux) (tags : Tags)
    (y : Tree κ α) (state : GaussNewtonState κ α) :
    Outcome Error (LineSearchSolution κ α Aux) := do
  let linear ← Checked.toOutcome (residual.linearize y)
  method.lineSearch.search residual.objective method.descent y
    (searchOptions linear tags y state.stepSize) false

theorem searchAt_of_linearize {method : GaussNewton κ α Aux} {residual : Residual κ α Aux}
    {tags : Tags} {y : Tree κ α} {state : GaussNewtonState κ α} {linear : Linearization κ α Aux}
    (h : residual.linearize y = .ok linear) :
    method.searchAt residual tags y state =
      method.lineSearch.search residual.objective method.descent y
        (searchOptions linear tags y state.stepSize) false := by
  simp [searchAt, h]

/-- A step searches from the linearization at its point, and keeps what was found with the change of
the point and the two last objectives. -/
theorem step_eq_ok {method : GaussNewton κ α Aux} {residual : Residual κ α Aux} {tags : Tags}
    {y y' : Tree κ α} {state state' : GaussNewtonState κ α} {aux : Aux} :
    method.step residual tags y state = .ok (y', state', aux) ↔
      ∃ linear found diff, residual.linearize y = .ok linear ∧
        method.lineSearch.search residual.objective method.descent y
          (searchOptions linear tags y state.stepSize) false = .ok found ∧
        found.value.sub y = .ok diff ∧ y' = found.value ∧ aux = found.aux ∧
        state' = ⟨found.state.nextInit, diff, sumSquares linear.value, state.objective,
          stepStatus found.status⟩ := by
  unfold step
  simp only [Outcome.bind_eq_ok, Checked.toOutcome_eq_ok, Outcome.pure_eq_ok, Except.ok.injEq,
    Prod.mk.injEq]
  constructor
  · rintro ⟨linear, hlinear, found, hfound, diff, hdiff, rfl, rfl, rfl⟩
    exact ⟨linear, found, diff, hlinear, hfound, hdiff, rfl, rfl, rfl⟩
  · rintro ⟨linear, found, diff, hlinear, hfound, hdiff, rfl, rfl, rfl⟩
    exact ⟨linear, hlinear, found, hfound, diff, hdiff, rfl, rfl, rfl⟩

/-- Methods whose searches from a point and a state find the same make the same step from there. -/
theorem step_congr {method method' : GaussNewton κ α Aux} {residual : Residual κ α Aux} {tags : Tags}
    {y : Tree κ α} {state : GaussNewtonState κ α}
    (h : ∀ linear, residual.linearize y = .ok linear →
      method'.lineSearch.search residual.objective method'.descent y
          (searchOptions linear tags y state.stepSize) false =
        method.lineSearch.search residual.objective method.descent y
          (searchOptions linear tags y state.stepSize) false) :
    method'.step residual tags y state = method.step residual tags y state := by
  unfold step
  cases hlinear : residual.linearize y with
  | error fault => rfl
  | ok linear => simp only [Checked.toOutcome_ok, Outcome.ok_bind, h linear hlinear]

end GaussNewton

end LeastSquares
