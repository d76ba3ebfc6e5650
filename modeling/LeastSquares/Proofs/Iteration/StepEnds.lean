import LeastSquares.Proofs.Exact.RefusedStep
import LeastSquares.Proofs.Iteration.Answers
import LeastSquares.Proofs.LineSearch.Ends

/-!
# How a step ends

A step of a method with one of the two line searches either moves to a trial point, and then it counts
as successful, or it stays at its point. It stays with the auxiliary output of the linearization and
with the step size it was given; the status says why. An error of a step is an error of its descent.

Two facts about whole runs follow. The auxiliary output of an answer belongs to the point of the
answer, on whichever way it got there (`solve_aux_at_value`). And a step that leaves a failing status
is the last one: the solve ends at the point before the step, with that status, whether or not the
budget is spent (`solve_failStop`).
-/

namespace LeastSquares

variable {κ α Aux : Type}

namespace Residual

variable {residual : Residual κ α Aux} {y : Tree κ α}

theorem auxAt_of_linearize {linear : Linearization κ α Aux} (h : residual.linearize y = .ok linear) :
    residual.auxAt y = .ok linear.aux := by
  obtain ⟨⟨value, aux⟩, hvalue, heq⟩ := Outcome.bind_eq_ok.mp h
  cases heq
  simp [auxAt, hvalue]

theorem auxAt_of_objective [Scalar α] {f : α} {aux : Aux}
    (h : residual.objective y = .ok (f, aux)) : residual.auxAt y = .ok aux := by
  obtain ⟨⟨value, aux'⟩, hvalue, heq⟩ := Outcome.bind_eq_ok.mp h
  cases heq
  simp [auxAt, hvalue]

end Residual

namespace GaussNewton

/-- Why a search stays at its point: no trial was of any use, or the descent failed. -/
def StaysWith (descent : Descent κ α) (options : DescentOptions κ α) (status : Status) : Prop :=
  status = .lineSearchFailed ∨
    ∃ stepSize step, descent.compute stepSize options = .ok step ∧ step.status = status ∧
      status ≠ .successful

variable [Scalar α]

/-- The ends of a step from a point and a state. -/
inductive StepEnds (residual : Residual κ α Aux) (descent : Descent κ α) (tags : Tags)
    (y : Tree κ α) (state : GaussNewtonState κ α) :
    Outcome Error (Tree κ α × GaussNewtonState κ α × Aux) → Prop
  | moved (linear : Linearization κ α Aux) (trial : Trial κ α Aux) (state' : GaussNewtonState κ α)
      (hlinear : residual.linearize y = .ok linear)
      (htrial : IsTrial residual.objective descent y (searchOptions linear tags y state.stepSize)
        trial)
      (hstatus : state'.status = .successful) :
      StepEnds residual descent tags y state (.ok (trial.value, state', trial.aux))
  | stayed (linear : Linearization κ α Aux) (status : Status) (state' : GaussNewtonState κ α)
      (hlinear : residual.linearize y = .ok linear)
      (hstays : StaysWith descent (searchOptions linear tags y state.stepSize).descentOptions status)
      (hstepSize : state'.stepSize = state.stepSize) (hstatus : state'.status = stepStatus status) :
      StepEnds residual descent tags y state (.ok (y, state', linear.aux))
  | reported (linear : Linearization κ α Aux) (stepSize : α) (error : Error)
      (hlinear : residual.linearize y = .ok linear)
      (hcompute : descent.compute stepSize
        (searchOptions linear tags y state.stepSize).descentOptions = .error (.reported error)) :
      StepEnds residual descent tags y state (.error (.reported error))
  | faulted (fault : Fault) : StepEnds residual descent tags y state (.error (.broken fault))

/-- After a search that found something only the change of the point is left to be computed. -/
theorem StepEnds.of_found {residual : Residual κ α Aux} {descent : Descent κ α} {tags : Tags}
    {y : Tree κ α} {state : GaussNewtonState κ α} {objective : α}
    (found : LineSearchSolution κ α Aux)
    (h : ∀ diff, StepEnds residual descent tags y state
      (.ok (found.value, ⟨found.state.nextInit, diff, objective, state.objective,
        stepStatus found.status⟩, found.aux))) :
    StepEnds residual descent tags y state
      (do
        let diff ← Checked.toOutcome (found.value.sub y)
        return (found.value, ⟨found.state.nextInit, diff, objective, state.objective,
          stepStatus found.status⟩, found.aux)) := by
  cases found.value.sub y with
  | ok diff => exact h diff
  | error fault => exact .faulted fault

/-- **The ends of a step**, for any descent and both line searches. -/
theorem step_ends (tolerance : Tolerance α) (norm : Norm α) (descent : Descent κ α)
    (search : StandardSearch α) (residual : Residual κ α Aux) (tags : Tags) (y : Tree κ α)
    (state : GaussNewtonState κ α) :
    StepEnds residual descent tags y state
      ((withSearch tolerance norm descent search).step residual tags y state) := by
  unfold step withSearch
  cases hlinear : residual.linearize y with
  | error fault => exact .faulted fault
  | ok linear =>
      have hsearch := search_ends search residual.objective descent y
        (searchOptions linear tags y state.stepSize)
      simp only [Checked.toOutcome_ok, Outcome.ok_bind]
      generalize search.toLineSearch.search residual.objective descent y
        (searchOptions linear tags y state.stepSize) false = outcome at hsearch
      cases hsearch with
      | moved trial status found htrial hstatus =>
          refine StepEnds.of_found ⟨trial.value, status, found, trial.aux⟩ fun diff => ?_
          refine .moved linear trial _ hlinear htrial ?_
          rcases hstatus with rfl | rfl <;> rfl
      | refused stepSize step numSteps hcompute hfails =>
          refine StepEnds.of_found _ fun diff => ?_
          exact .stayed linear step.status _ hlinear
            (.inr ⟨stepSize, step, hcompute, rfl, hfails⟩) rfl rfl
      | hopeless numSteps =>
          refine StepEnds.of_found _ fun diff => ?_
          exact .stayed linear .lineSearchFailed _ hlinear (.inl rfl) rfl rfl
      | reported stepSize error hcompute => exact .reported linear stepSize error hlinear hcompute
      | faulted fault => exact .faulted fault

section Run

variable {tolerance : Tolerance α} {norm : Norm α} {descent : Descent κ α}
  {search : StandardSearch α} {residual : Residual κ α Aux} {tags : Tags} {y y' : Tree κ α}
  {state state' : GaussNewtonState κ α} {aux : Aux} {k : Nat}
  {it : Iterate κ α Aux (GaussNewtonState κ α)}

/-- The auxiliary output of a step belongs to the point it leads to. -/
theorem step_auxAt
    (h : (withSearch tolerance norm descent search).step residual tags y state =
      .ok (y', state', aux)) :
    residual.auxAt y' = .ok aux := by
  have hends := step_ends tolerance norm descent search residual tags y state
  rw [h] at hends
  cases hends with
  | moved linear trial state' hlinear htrial hstatus =>
      exact Residual.auxAt_of_objective htrial.objective
  | stayed linear status state' hlinear hstays hstepSize hstatus =>
      exact Residual.auxAt_of_linearize hlinear

/-- A step that leaves a failing status has stayed where it was, with the step size it was given. -/
theorem step_failed
    (h : (withSearch tolerance norm descent search).step residual tags y state =
      .ok (y', state', aux)) (hfails : state'.status ≠ .successful) :
    y' = y ∧ state'.stepSize = state.stepSize := by
  have hends := step_ends tolerance norm descent search residual tags y state
  rw [h] at hends
  cases hends with
  | moved linear trial state' hlinear htrial hstatus => exact absurd hstatus hfails
  | stayed linear status state' hlinear hstays hstepSize hstatus => exact ⟨rfl, hstepSize⟩

/-- A step keeps the skeleton of its point. -/
theorem step_skeleton
    (h : (withSearch tolerance norm descent search).step residual tags y state =
      .ok (y', state', aux)) :
    y'.skeleton = y.skeleton := by
  have hends := step_ends tolerance norm descent search residual tags y state
  rw [h] at hends
  cases hends with
  | moved linear trial state' hlinear htrial hstatus =>
      obtain ⟨diff, -, hadd⟩ := htrial.step
      exact Tree.skeleton_of_zipWith hadd
  | stayed linear status state' hlinear hstays hstepSize hstatus => rfl

/-- Every point of a run has the skeleton of the starting point. -/
theorem iterateAt_skeleton (k : Nat) :
    ∀ it, (withSearch tolerance norm descent search).toSolver.iterateAt residual tags y k =
        .ok it →
      it.point.skeleton = y.skeleton := by
  induction k with
  | zero =>
      intro it hit
      obtain ⟨state, -, rfl⟩ := IterativeSolver.iterateAt_zero_eq_ok.mp hit
      rfl
  | succ k ih =>
      intro it hit
      obtain ⟨before, hbefore, hadvance⟩ := IterativeSolver.iterateAt_succ_eq_ok.mp hit
      obtain ⟨point, state, aux, hstep, rfl⟩ := IterativeSolver.advance_eq_ok.mp hadvance
      have hkeeps := step_skeleton hstep
      exact hkeeps.trans (ih before hbefore)

/-- The auxiliary output that goes with an iterate is the one at its point. -/
theorem lastAux_of_iterateAt
    (h : (withSearch tolerance norm descent search).toSolver.iterateAt residual tags y k = .ok it) :
    it.lastAux residual = residual.auxAt it.point := by
  cases k with
  | zero =>
      obtain ⟨state, -, rfl⟩ := IterativeSolver.iterateAt_zero_eq_ok.mp h
      rfl
  | succ k =>
      obtain ⟨before, -, hadvance⟩ := IterativeSolver.iterateAt_succ_eq_ok.mp h
      obtain ⟨point, state, aux, hstep, rfl⟩ := IterativeSolver.advance_eq_ok.mp hadvance
      exact (step_auxAt hstep).symm

/-- After a failure the test says stop, with the status of the failure. -/
theorem stop_of_failed (method : GaussNewton κ α Aux) (residual : Residual κ α Aux) (tags : Tags)
    (y : Tree κ α) (state : GaussNewtonState κ α) (hfails : state.status ≠ .successful) :
    method.toSolver.stop residual tags y state = .ok (true, state.status) := by
  show method.stop y state = _
  unfold stop stopping
  rw [Status.isSuccessful_eq_false hfails]
  rfl

/-- Where the test says to go on, there has been no failure. -/
theorem successful_of_goesOn {method : GaussNewton κ α Aux}
    (hit : method.toSolver.iterateAt residual tags y k = .ok it)
    (hgo : method.toSolver.GoesOnAt residual tags y k) : it.state.status = .successful := by
  obtain ⟨it', status, hit', hstop⟩ := hgo
  cases hit.symm.trans hit'
  by_contra hfails
  rw [stop_of_failed method residual tags it.point it.state hfails] at hstop
  cases hstop

/-- **The auxiliary output of an answer** is the one of the residual at the point of the answer. This
holds on every way to an answer: convergence, a spent budget with or without steps, a search that
answered an earlier trial or stayed where it was, and a descent that failed. -/
theorem solve_aux_at_value (tolerance : Tolerance α) (norm : Norm α) (descent : Descent κ α)
    (search : StandardSearch α) (residual : Residual κ α Aux) (y : Tree κ α) (config : Config)
    {solution : Solution κ α Aux (GaussNewtonState κ α)}
    (h : (withSearch tolerance norm descent search).toSolver.solve residual y config =
      .ok solution) :
    residual.auxAt solution.value = .ok solution.aux := by
  obtain ⟨it, hit, hpoint, -, haux⟩ := iterateAt_of_solve h
  rw [lastAux_of_iterateAt hit, hpoint] at haux
  exact haux

end Run

section Strides

open Exact

theorem strides_stopsFirstAt :
    strides.toSolver.StopsFirstAt squarePlusOne {} (.scalar (real 2)) 2
      ⟨.scalar (real 0), ⟨real (8 / 5), .scalar (real 0), real 1, real 25, .singular⟩,
        some [real 0], 2⟩ .singular where
  reached := strides_iterateAt_two
  stops := stop_of_failed strides squarePlusOne {} _ _ (by decide)
  before j hj := strides_goesOn (by omega)

theorem strides_runsOut :
    strides.toSolver.RunsOut squarePlusOne {} (.scalar (real 2)) 0
      ⟨.scalar (real 2), GaussNewton.start (.scalar (real 2)), none, 0⟩ where
  reached := strides_iterateAt_zero
  before j hj := strides_goesOn (by omega)

/-- Without steps the auxiliary output is asked for at two, and after the step that failed it is the
one of the linearization at zero. -/
theorem solve_aux_at_value_strides :
    (∃ solution, strides.toSolver.solve squarePlusOne (.scalar (real 2)) ⟨0, false, {}⟩ =
        .ok solution ∧ solution.value = .scalar (real 2) ∧
        squarePlusOne.auxAt solution.value = .ok solution.aux) ∧
      ∃ solution, strides.toSolver.solve squarePlusOne (.scalar (real 2)) ⟨2, false, {}⟩ =
        .ok solution ∧ solution.value = .scalar (real 0) ∧
        squarePlusOne.auxAt solution.value = .ok solution.aux := by
  have hnone := strides_runsOut.solve
  have htwo := strides_stopsFirstAt.solve (Nat.le_refl 2)
  exact ⟨⟨_, hnone, rfl, solve_aux_at_value _ _ _ _ _ _ _ hnone⟩,
    ⟨_, htwo, rfl, solve_aux_at_value _ _ _ _ _ _ _ htwo⟩⟩

end Strides

section FailStop

variable {tolerance : Tolerance α} {norm : Norm α} {descent : Descent κ α}
  {search : StandardSearch α} {residual : Residual κ α Aux} {tags : Tags} {y : Tree κ α} {k : Nat}
  {before it : Iterate κ α Aux (GaussNewtonState κ α)}

/-- **A failing step is the last.** It has stayed at the point before it, with the auxiliary output
there and the step size unchanged, and the test says stop. So a run that takes this step ends with it,
also where it is the last step of the budget: the answer, or the error if failing statuses are thrown,
carries the status that the step left, the point before it, and the number of steps with it. -/
theorem solve_failStop
    (hbefore : (withSearch tolerance norm descent search).toSolver.iterateAt residual tags y k =
      .ok before)
    (hit : (withSearch tolerance norm descent search).toSolver.iterateAt residual tags y (k + 1) =
      .ok it)
    (hfails : it.state.status ≠ .successful) :
    it.point = before.point ∧ it.state.stepSize = before.state.stepSize ∧
      (withSearch tolerance norm descent search).toSolver.stop residual tags it.point it.state =
        .ok (true, it.state.status) ∧
      ∃ aux, residual.auxAt before.point = .ok aux ∧ it.aux = some aux ∧
        ((∀ j ≤ k, (withSearch tolerance norm descent search).toSolver.GoesOnAt residual tags y j) →
          ∀ maxSteps, k + 1 ≤ maxSteps →
            (withSearch tolerance norm descent search).toSolver.solve residual y
                ⟨maxSteps, false, tags⟩ =
              .ok ⟨before.point, it.state.status, aux, k + 1, it.state⟩ ∧
            (withSearch tolerance norm descent search).toSolver.solve residual y
                ⟨maxSteps, true, tags⟩ =
              Outcome.report ⟨.solve it.state.status (k + 1), before.point, k + 1⟩) := by
  obtain ⟨aux, hstep, haux⟩ := IterativeSolver.step_of_iterateAt hbefore hit
  obtain ⟨hpoint, hstepSize⟩ := step_failed hstep hfails
  have hstop := stop_of_failed (withSearch tolerance norm descent search) residual tags it.point
    it.state hfails
  refine ⟨hpoint, hstepSize, hstop, aux, ?_, haux, ?_⟩
  · rw [← hpoint]
    exact step_auxAt hstep
  · intro hgo maxSteps hmax
    have hfirst : (withSearch tolerance norm descent search).toSolver.StopsFirstAt residual tags y
        (k + 1) it it.state.status := ⟨hit, hstop, fun j hj => hgo j (by omega)⟩
    have hlast : it.lastAux residual = .ok aux := by
      rw [Iterate.lastAux, haux]
    rw [hfirst.solve hmax, hfirst.solve_thrown hmax hfails, hlast, hpoint]
    exact ⟨rfl, rfl⟩

open Exact in
/-- The second step from two fails at zero, with a budget of just two steps. -/
theorem solve_failStop_strides :
    strides.toSolver.solve squarePlusOne (.scalar (real 2)) ⟨2, false, {}⟩ =
        .ok ⟨.scalar (real 0), .singular, [real 0], 2,
          ⟨real (8 / 5), .scalar (real 0), real 1, real 25, .singular⟩⟩ ∧
      strides.toSolver.solve squarePlusOne (.scalar (real 2)) ⟨2, true, {}⟩ =
        Outcome.report ⟨.solve .singular 2, .scalar (real 0), 2⟩ := by
  obtain ⟨-, -, -, aux, haux, -, hsolve⟩ :=
    solve_failStop strides_iterateAt_one strides_iterateAt_two (by decide)
  cases haux
  exact hsolve (fun j hj => strides_goesOn hj) 2 (Nat.le_refl 2)

end FailStop

end GaussNewton

end LeastSquares
