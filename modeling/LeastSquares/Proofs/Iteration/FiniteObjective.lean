import LeastSquares.Proofs.Exact.BacktrackingRun
import LeastSquares.Proofs.Iteration.FirstTest
import LeastSquares.Proofs.Iteration.History
import LeastSquares.Proofs.Iteration.StepEnds

/-!
# The objective stays finite under backtracking

Backtracking moves to no trial whose objective is not a finite number: such a trial is neither accepted
nor kept as the best one so far, and a search that finds nothing stays at its point. So from a point
with a finite objective every iterate has one, and so has the point of an answer or of a failure,
whatever the descent does. From any other point there is no search at all: the first step stays, and
its status ends the run (`solve_finite_or_failed`).
-/

namespace LeastSquares

open GaussNewton

variable {κ α Aux : Type} [Scalar α]

/-- At a point the residual answers a value whose sum of squares is a finite number. -/
def Residual.FiniteAt (residual : Residual κ α Aux) (y : Tree κ α) : Prop :=
  ∃ f, residual.HasObjective y f ∧ Scalar.isFinite f = true

section Residual

variable {residual : Residual κ α Aux} {y : Tree κ α}

theorem Residual.hasObjective_iff {f : α} :
    residual.HasObjective y f ↔ ∃ aux, residual.objective y = .ok (f, aux) := by
  constructor
  · rintro ⟨value, aux, hvalue, rfl⟩
    exact ⟨aux, by simp [objective, hvalue]⟩
  · rintro ⟨aux, hobjective⟩
    obtain ⟨⟨value, aux'⟩, hvalue, heq⟩ := Outcome.bind_eq_ok.mp hobjective
    cases heq
    exact ⟨value, aux, hvalue, rfl⟩

theorem Residual.finiteAt_of_objective {f : α} {aux : Aux}
    (hobjective : residual.objective y = .ok (f, aux)) (hfinite : Scalar.isFinite f = true) :
    residual.FiniteAt y :=
  ⟨f, hasObjective_iff.mpr ⟨aux, hobjective⟩, hfinite⟩

/-- A point has one objective. -/
theorem Residual.FiniteAt.isFinite {f : α} (h : residual.FiniteAt y)
    (hf : residual.HasObjective y f) : Scalar.isFinite f = true := by
  obtain ⟨g, ⟨value, aux, hvalue, rfl⟩, hfinite⟩ := h
  obtain ⟨value', aux', hvalue', rfl⟩ := hf
  cases hvalue.symm.trans hvalue'
  exact hfinite

end Residual

section Search

variable {residual : Residual κ α Aux} {descent : Descent κ α} {y : Tree κ α}
  {options : LineSearchOptions κ α Aux} {found : LineSearchSolution κ α Aux}

/-- The induction is on the trials that are left. The best trial so far has a finite objective. -/
theorem trials_finiteAt (search : Backtracking α) (hy : residual.FiniteAt y) (remaining : Nat) :
    ∀ (trial : Nat) (stepSize : α) (best : Option (Trial κ α Aux)),
      (∀ earlier ∈ best, residual.FiniteAt earlier.value) →
      search.trials residual.objective descent y options remaining trial stepSize best = .ok found →
      residual.FiniteAt found.value := by
  induction remaining with
  | zero =>
      intro trial stepSize best hbest hfound
      cases hfound
      cases best with
      | none => exact hy
      | some earlier => exact hbest earlier rfl
  | succ remaining ih =>
      intro trial stepSize best hbest hfound
      obtain ⟨step, -, hrest⟩ := Outcome.bind_eq_ok.mp hfound
      by_cases hsuccess : step.status.isSuccessful = true
      · rw [if_pos hsuccess] at hrest
        obtain ⟨value, -, hrest⟩ := Outcome.bind_eq_ok.mp hrest
        obtain ⟨⟨f, aux⟩, hobjective, hrest⟩ := Outcome.bind_eq_ok.mp hrest
        rw [Outcome.liftM_eq_toOutcome, Checked.toOutcome_eq_ok] at hobjective
        dsimp only at hrest
        by_cases hfinite : Scalar.isFinite f = true
        · rw [if_pos hfinite] at hrest
          -- Only such a trial is accepted, or kept as the best one for the end.
          have htrial := Residual.finiteAt_of_objective hobjective hfinite
          obtain ⟨predicted, -, hrest⟩ := Outcome.bind_eq_ok.mp hrest
          split at hrest
          · cases hrest
            exact htrial
          · exact ih _ _ _ (Backtracking.forall_mem_better hbest htrial) hrest
        · rw [if_neg hfinite] at hrest
          exact ih _ _ _ hbest hrest
      · rw [if_neg hsuccess] at hrest
        cases hrest
        exact hy

theorem attempt_finiteAt (search : Backtracking α) (hy : residual.FiniteAt y)
    (h : search.attempt residual.objective descent y options = .ok found) :
    residual.FiniteAt found.value := by
  unfold Backtracking.attempt at h
  split at h
  · exact trials_finiteAt search hy _ _ _ none (fun _ hnone => nomatch hnone) h
  · cases h
    exact hy

/-- From an objective that is not a finite number there is no search. -/
theorem attempt_of_not_finite (search : Backtracking α) (objective : Tree κ α → Checked (α × Aux))
    (h : Scalar.isFinite options.objective = false) :
    search.attempt objective descent y options = .ok (.stay y options .lineSearchFailed 0) := by
  unfold Backtracking.attempt
  rw [h]
  rfl

end Search

section Run

variable {tolerance : Tolerance α} {norm : Norm α} {descent : Descent κ α} {search : Backtracking α}
  {residual : Residual κ α Aux} {tags : Tags} {y y' : Tree κ α} {state state' : GaussNewtonState κ α}
  {aux : Aux}

theorem step_finiteAt (hy : residual.FiniteAt y)
    (h : (withSearch tolerance norm descent (.backtracking search)).step residual tags y state =
      .ok (y', state', aux)) :
    residual.FiniteAt y' := by
  obtain ⟨linear, found, diff, -, hsearch, -, rfl, -⟩ := step_eq_ok.mp h
  have hattempt := (StandardSearch.search_backtracking ..).symm.trans hsearch
  exact attempt_finiteAt search hy hattempt

/-- Every iterate has a finite objective. -/
theorem iterateAt_finiteAt (hy : residual.FiniteAt y) (k : Nat) :
    ∀ it, (withSearch tolerance norm descent (.backtracking search)).toSolver.iterateAt residual tags
        y k = .ok it →
      residual.FiniteAt it.point := by
  induction k with
  | zero =>
      intro it hit
      obtain ⟨state, -, rfl⟩ := IterativeSolver.iterateAt_zero_eq_ok.mp hit
      exact hy
  | succ k ih =>
      intro it hit
      obtain ⟨before, hbefore, -⟩ := IterativeSolver.iterateAt_succ_eq_ok.mp hit
      obtain ⟨aux, hstep, -⟩ := IterativeSolver.step_of_iterateAt hbefore hit
      exact step_finiteAt (ih before hbefore) hstep

/-- Every state after the first step remembers a finite objective. -/
theorem objective_isFinite (hy : residual.FiniteAt y) {k : Nat}
    {it : Iterate κ α Aux (GaussNewtonState κ α)}
    (hit : (withSearch tolerance norm descent (.backtracking search)).toSolver.iterateAt residual tags
      y k = .ok it) (hk : 0 < k) :
    Scalar.isFinite it.state.objective = true := by
  obtain ⟨j, rfl⟩ := Nat.exists_eq_add_one.mpr hk
  obtain ⟨before, hbefore, -⟩ := IterativeSolver.iterateAt_succ_eq_ok.mp hit
  have hfinite := iterateAt_finiteAt hy j before hbefore
  exact hfinite.isFinite (iterateAt_remembers hbefore hit).objective

/-- From an objective that is not a finite number a step stays, and says that the search failed. -/
theorem step_of_not_finite (tolerance : Tolerance α) (norm : Norm α) (descent : Descent κ α)
    (search : Backtracking α) (tags : Tags) (state : GaussNewtonState κ α) {value : Tree κ α}
    (hvalue : residual.value y = .ok (value, aux))
    (hfinite : Scalar.isFinite (sumSquares value) = false) :
    ∃ state', (withSearch tolerance norm descent (.backtracking search)).step residual tags y state =
        .ok (y, state', aux) ∧ state'.status = .lineSearchFailed := by
  have hlinear : residual.linearize y = .ok ⟨value, residual.tangent y, aux⟩ := by
    simp [Residual.linearize, hvalue]
  refine ⟨_, step_eq_ok.mpr ⟨_, .stay y
    (searchOptions ⟨value, residual.tangent y, aux⟩ tags y state.stepSize) .lineSearchFailed 0, _,
    hlinear, ?_, Tree.zipWith_eq_ok _ rfl, rfl, rfl, rfl⟩, rfl⟩
  exact (StandardSearch.search_backtracking ..).trans (attempt_of_not_finite search _ hfinite)

/-- A run from an objective that is not a finite number stops after its first step. -/
theorem stopsFirstAt_of_not_finite [Scalar.LawfulNaN α] (tolerance : Tolerance α) (norm : Norm α)
    (descent : Descent κ α) (search : Backtracking α) (tags : Tags) {value : Tree κ α}
    (hvalue : residual.value y = .ok (value, aux))
    (hfinite : Scalar.isFinite (sumSquares value) = false) :
    ∃ state, (withSearch tolerance norm descent (.backtracking search)).toSolver.StopsFirstAt residual
      tags y 1 ⟨y, state, some aux, 1⟩ .lineSearchFailed := by
  obtain ⟨state, hstep, hstatus⟩ :=
    step_of_not_finite tolerance norm descent search tags (GaussNewton.start y) hvalue hfinite
  have hfails : state.status ≠ .successful := by
    rw [hstatus]
    decide
  refine ⟨state, ?_, ?_, ?_⟩
  · exact IterativeSolver.iterateAt_of_step (iterateAt_zero _ residual tags y) hstep
  · rw [← hstatus]
    exact stop_of_failed _ residual tags y state hfails
  · intro j hj
    obtain rfl := Nat.lt_one_iff.mp hj
    exact goesOn_start _ residual tags y

end Run

/-- **A finite objective stays finite.** If the objective is a finite number where a run begins, it is
one at every iterate, at the point of the answer and at the point of a failure, and every state after
the first step remembers one. If it is not, a run with a budget ends after one step where it began, and
says that the search failed. The descent is arbitrary. -/
theorem solve_finite_or_failed [Scalar.LawfulNaN α] (tolerance : Tolerance α) (norm : Norm α)
    (descent : Descent κ α) (search : Backtracking α) (residual : Residual κ α Aux) (tags : Tags)
    (y : Tree κ α) :
    (residual.FiniteAt y →
        (∀ k it, (withSearch tolerance norm descent (.backtracking search)).toSolver.iterateAt residual
            tags y k = .ok it →
          residual.FiniteAt it.point ∧ (0 < k → Scalar.isFinite it.state.objective = true)) ∧
        (∀ maxSteps throwing solution,
          (withSearch tolerance norm descent (.backtracking search)).toSolver.solve residual y
              ⟨maxSteps, throwing, tags⟩ = .ok solution →
          residual.FiniteAt solution.value ∧
            (0 < solution.numSteps → Scalar.isFinite solution.state.objective = true)) ∧
        ∀ maxSteps throwing failure,
          (withSearch tolerance norm descent (.backtracking search)).toSolver.solve residual y
              ⟨maxSteps, throwing, tags⟩ = .error (.reported failure) →
          residual.FiniteAt failure.value) ∧
      ∀ value aux, residual.value y = .ok (value, aux) →
        Scalar.isFinite (sumSquares value) = false → ∀ maxSteps, 1 ≤ maxSteps →
        (∃ state, (withSearch tolerance norm descent (.backtracking search)).toSolver.solve residual y
            ⟨maxSteps, false, tags⟩ = .ok ⟨y, .lineSearchFailed, aux, 1, state⟩) ∧
          (withSearch tolerance norm descent (.backtracking search)).toSolver.solve residual y
              ⟨maxSteps, true, tags⟩ =
            Outcome.report ⟨.solve .lineSearchFailed 1, y, 1⟩ := by
  refine ⟨fun hy => ⟨?iterates, ?answers, ?failures⟩, ?_⟩
  case iterates => exact fun k it hit => ⟨iterateAt_finiteAt hy k it hit, objective_isFinite hy hit⟩
  case answers =>
    intro maxSteps throwing solution hsolve
    obtain ⟨it, hit, hpoint, hstate, -⟩ := iterateAt_of_solve hsolve
    rw [← hpoint, ← hstate]
    exact ⟨iterateAt_finiteAt hy _ it hit, objective_isFinite hy hit⟩
  case failures =>
    intro maxSteps throwing failure hsolve
    obtain ⟨it, hit, hpoint⟩ := iterateAt_of_failure hsolve
    rw [← hpoint]
    exact iterateAt_finiteAt hy _ it hit
  · intro value aux hvalue hfinite maxSteps hmax
    obtain ⟨state, hfirst⟩ :=
      stopsFirstAt_of_not_finite tolerance norm descent search tags hvalue hfinite
    exact ⟨⟨state, hfirst.solve hmax⟩, hfirst.solve_thrown hmax (by decide)⟩

section Runs

open Exact

/-- A residual that is infinite everywhere. -/
def unbounded : Residual Unit Exact Unit where
  value _ := .ok (.scalar posInf, ())
  tangent _ t := .ok t

/-- The objective of the square less two is a finite number at two, so it is one after a step with
halving; the residual that is infinite everywhere ends a run at once. -/
theorem solve_finite_or_failed_halving :
    (∃ it, halving.toSolver.iterateAt squareLessTwo {} (.scalar (real 2)) 1 = .ok it ∧
        squareLessTwo.FiniteAt it.point ∧ Scalar.isFinite it.state.objective = true) ∧
      halving.toSolver.solve unbounded (.scalar (real 2)) ⟨5, true, {}⟩ =
        Outcome.report ⟨.solve .lineSearchFailed 1, .scalar (real 2), 1⟩ := by
  have hstart : squareLessTwo.FiniteAt (.scalar (real 2)) :=
    ⟨_, ⟨_, (), squareLessTwo_value 2, rfl⟩, isFinite_real _⟩
  obtain ⟨hiterates, -⟩ := (solve_finite_or_failed ⟨real 0, real 1⟩ .max
    (NewtonDescent.toDescent {}) .standard squareLessTwo {} (.scalar (real 2))).1 hstart
  obtain ⟨hpoint, hobjective⟩ := hiterates 1 _ halving_iterateAt_one
  have hthrown := ((solve_finite_or_failed ⟨real 0, real 1⟩ .max
    (NewtonDescent.toDescent {}) .standard unbounded {} (.scalar (real 2))).2 _ _ rfl rfl 5
    (by decide)).2
  exact ⟨⟨_, halving_iterateAt_one, hpoint, hobjective Nat.one_pos⟩, hthrown⟩

end Runs

end LeastSquares
