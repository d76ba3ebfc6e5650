import LeastSquares.Proofs.Exact.BacktrackingRun
import LeastSquares.Proofs.Iteration.Answers

/-!
# What a state remembers

The state after a step looks back: at the change of the point, at the objective where the step began,
at the objective where the step before began, and at the step size that the search left behind. The
search itself was told the step size of the state before and the objective that is remembered. So
three iterates in a row are seen in one state, and the two objectives that the stopping test compares
lag behind the point by one step and by two (`state_remembers`). Nothing is assumed of the descent and
of the line search.
-/

namespace LeastSquares

open Exact LeastSquares.Tree GaussNewton

section Remembering

variable {κ α Aux : Type} [Scalar α]

/-- At a point the residual answers a value with this sum of squares. -/
def Residual.HasObjective (residual : Residual κ α Aux) (y : Tree κ α) (f : α) : Prop :=
  ∃ value aux, residual.value y = .ok (value, aux) ∧ f = sumSquares value

/-- What the state after a step says about the step: the change of the point leaf by leaf, the
objective at its start, the one that was remembered before, and what became of the search. The search
was told the step size of the state before to start from, and the objective that is remembered to
compare with. -/
structure RemembersStep (method : GaussNewton κ α Aux) (residual : Residual κ α Aux) (tags : Tags)
    (y : Tree κ α) (state : GaussNewtonState κ α) (y' : Tree κ α) (state' : GaussNewtonState κ α) :
    Prop where
  size : y'.size = y.size
  diff_skeleton : state'.diff.skeleton = y'.skeleton
  diff_leaves : state'.diff.leaves = List.zipWith (· - ·) y'.leaves y.leaves
  objective : residual.HasObjective y state'.objective
  previous : state'.previous = state.objective
  search : ∃ linear options found, residual.linearize y = .ok linear ∧
    options = searchOptions linear tags y state.stepSize ∧
    options.initStepSize = state.stepSize ∧ options.objective = state'.objective ∧
    method.lineSearch.search residual.objective method.descent y options false = .ok found ∧
    found.value = y' ∧ found.state.nextInit = state'.stepSize

variable {method : GaussNewton κ α Aux} {residual : Residual κ α Aux} {tags : Tags}

theorem step_remembers {y y' : Tree κ α} {state state' : GaussNewtonState κ α} {aux : Aux}
    (h : method.step residual tags y state = .ok (y', state', aux)) :
    RemembersStep method residual tags y state y' state' := by
  obtain ⟨linear, found, diff, hlinear, hfound, hdiff, rfl, -, rfl⟩ := step_eq_ok.mp h
  obtain ⟨⟨value, aux⟩, hvalue, heq⟩ := Outcome.bind_eq_ok.mp hlinear
  cases heq
  exact {
    size := (zipWith_eq_ok_iff.mp hdiff).1
    diff_skeleton := skeleton_of_zipWith hdiff
    diff_leaves := leaves_of_zipWith hdiff
    objective := ⟨value, aux, hvalue, rfl⟩
    previous := rfl
    search := ⟨_, _, found, hlinear, rfl, rfl, rfl, hfound, rfl, rfl⟩ }

theorem iterateAt_remembers {y : Tree κ α} {k : Nat}
    {before it : Iterate κ α Aux (GaussNewtonState κ α)}
    (hbefore : method.toSolver.iterateAt residual tags y k = .ok before)
    (hit : method.toSolver.iterateAt residual tags y (k + 1) = .ok it) :
    RemembersStep method residual tags before.point before.state it.point it.state := by
  obtain ⟨aux, hstep, -⟩ := IterativeSolver.step_of_iterateAt hbefore hit
  exact step_remembers hstep

/-- **What a state remembers.** After every step of a run, whatever the descent and the line search,
the state holds the change of the point, the objective at the point before, the objective at the point
before that one, or infinity after the first step, and the step size that the search left, which had
begun with the step size of the state before, or with one. The state of an answer is such a state. -/
theorem state_remembers (method : GaussNewton κ α Aux) (residual : Residual κ α Aux) (tags : Tags)
    (y : Tree κ α) :
    (∀ k before it, method.toSolver.iterateAt residual tags y k = .ok before →
        method.toSolver.iterateAt residual tags y (k + 1) = .ok it →
        RemembersStep method residual tags before.point before.state it.point it.state ∧
          (k = 0 → before.point = y ∧ before.state.stepSize = 1 ∧
            it.state.previous = Scalar.infinity) ∧
          ∀ j, j + 1 = k → ∃ earlier, method.toSolver.iterateAt residual tags y j = .ok earlier ∧
            residual.HasObjective earlier.point it.state.previous) ∧
      ∀ maxSteps throwing solution,
        method.toSolver.solve residual y ⟨maxSteps, throwing, tags⟩ = .ok solution →
        ∃ it, method.toSolver.iterateAt residual tags y solution.numSteps = .ok it ∧
          it.point = solution.value ∧ it.state = solution.state := by
  refine ⟨fun k before it hbefore hit => ?_, fun maxSteps throwing solution hsolve => ?_⟩
  · have hlast := iterateAt_remembers hbefore hit
    refine ⟨hlast, ?_, ?_⟩
    · rintro rfl
      obtain ⟨state, hstart, rfl⟩ := IterativeSolver.iterateAt_zero_eq_ok.mp hbefore
      cases hstart
      exact ⟨rfl, rfl, hlast.previous⟩
    · -- The objective that is remembered second is the one that the state before remembers first.
      rintro j rfl
      obtain ⟨earlier, hearlier, -⟩ := IterativeSolver.iterateAt_succ_eq_ok.mp hbefore
      refine ⟨earlier, hearlier, ?_⟩
      rw [hlast.previous]
      exact (iterateAt_remembers hearlier hbefore).objective
  · obtain ⟨it, hit, hpoint, hstate, -⟩ := iterateAt_of_solve hsolve
    exact ⟨it, hit, hpoint, hstate⟩

end Remembering

/-- Two steps of backtracking from two, under a cap of two. The second search starts from two, which the
first one left, passes over a trial and leaves one; the objectives are those at three halves and at
two. -/
theorem state_remembers_halving :
    let method := newton ⟨real 0, real 1⟩ .max {} (.backtracking (cappedHalving 2))
    ∃ before it, method.toSolver.iterateAt squareLessTwo {} (.scalar (real 2)) 1 = .ok before ∧
      method.toSolver.iterateAt squareLessTwo {} (.scalar (real 2)) 2 = .ok it ∧
      RemembersStep method squareLessTwo {} before.point before.state it.point it.state ∧
      before.state.stepSize = real 2 ∧ it.state.stepSize = real 1 ∧
      it.state.objective = real (1 / 16) ∧ it.state.previous = real 4 ∧
      squareLessTwo.HasObjective (.scalar (real 2)) (real 4) := by
  intro method
  have hone := squareLessTwo_iterateAt_one 2
  have htwo := squareLessTwo_iterateAt_two
  obtain ⟨hlast, -, hearlier⟩ := (state_remembers method squareLessTwo {} (.scalar (real 2))).1 1
    _ _ hone htwo
  obtain ⟨earlier, hzero, hobjective⟩ := hearlier 0 rfl
  cases hzero
  have hsize : min (2 : ℝ) 2 = 2 := min_self 2
  have hvalue : (3 / 2 * (3 / 2) - 2) * (3 / 2 * (3 / 2) - 2) = (1 / 16 : ℝ) := by norm_num
  have hprevious : (2 * 2 - 2) * (2 * 2 - 2) = (4 : ℝ) := by norm_num
  refine ⟨_, _, hone, htwo, hlast, congrArg real hsize, rfl, congrArg real hvalue,
    congrArg real hprevious, ?_⟩
  rwa [← hprevious]

end LeastSquares
