import LeastSquares.Proofs.Exact.FixedRate
import LeastSquares.Proofs.Iteration.StepEnds

/-!
# Restarting a run

A Gauss–Newton step reads the state before it through the step size alone. The objective is handed on
to the next state, where it is remembered second, and everything else is measured anew. So two states
with one step size make the same step, and a search that takes steps of its own size does not even read
the step size. With such a search a run that is begun again at one of its points, with a state that
knows nothing, goes through the same points as before (`step_forgets`).

What the two runs do not share is when they stop: the first tests of the run that is begun again compare
with objectives that it has not measured yet.
-/

namespace LeastSquares

open LeastSquares.Tree GaussNewton

variable {κ α Aux : Type}

/-- Two states that say the same about the last step: the change, the objective at its start and the
status. -/
structure SameStep (state state' : GaussNewtonState κ α) : Prop where
  diff : state'.diff = state.diff
  objective : state'.objective = state.objective
  status : state'.status = state.status

/-- Two steps to one point with one auxiliary output, after which the states say the same. -/
structure SameMove (next next' : Tree κ α × GaussNewtonState κ α × Aux) : Prop where
  point : next'.1 = next.1
  state : SameStep next.2.1 next'.2.1
  aux : next'.2.2 = next.2.2

/-- Two searches that end at one point with one status and one auxiliary output. -/
structure SameFind (found found' : LineSearchSolution κ α Aux) : Prop where
  value : found'.value = found.value
  status : found'.status = found.status
  aux : found'.aux = found.aux

/-- An iterate of a run, and the iterate that is reached from the point after `k` of its steps. -/
structure Continues (k : Nat) (it it' : Iterate κ α Aux (GaussNewtonState κ α)) : Prop where
  point : it'.point = it.point
  numSteps : it.numSteps = k + it'.numSteps
  last : 0 < it'.numSteps → it'.aux = it.aux ∧ SameStep it.state it'.state

/-- Failures of one kind at one point, where the second run has taken `k` steps less. -/
inductive FailsAlike (k : Nat) : Failure (SolveFailure κ α) → Failure (SolveFailure κ α) → Prop
  | broken (fault : Fault) : FailsAlike k (.broken fault) (.broken fault)
  | reported (error : Error) (value : Tree κ α) (numSteps : Nat) :
      FailsAlike k (.reported ⟨error, value, k + numSteps⟩) (.reported ⟨error, value, numSteps⟩)

namespace GaussNewton

variable [Scalar α] {residual : Residual κ α Aux} {tags : Tags} {y : Tree κ α}
  {state state' : GaussNewtonState κ α}

/-- States with one step size make the same step, and each hands on its own objective. -/
theorem step_of_stepSize (method : GaussNewton κ α Aux) (h : state'.stepSize = state.stepSize) :
    Outcome.Related Eq
      (fun next next' => SameMove next next' ∧ next'.2.1.stepSize = next.2.1.stepSize ∧
        next.2.1.previous = state.objective ∧ next'.2.1.previous = state'.objective)
      (method.step residual tags y state) (method.step residual tags y state') := by
  unfold step
  rw [h]
  refine Outcome.Related.bind (.of_eq rfl) ?_
  rintro linear _ rfl
  refine Outcome.Related.bind (.of_eq rfl) ?_
  rintro found _ rfl
  refine Outcome.Related.bind (.of_eq rfl) ?_
  rintro diff _ rfl
  exact .ok ⟨⟨rfl, ⟨rfl, rfl, rfl⟩, rfl⟩, rfl, rfl, rfl⟩

/-- A search by steps of a fixed size makes no use of the step size that it is told. -/
theorem fixedStep_of_options (search : FixedStep α) (objective : Tree κ α → Checked (α × Aux))
    (descent : Descent κ α) (linear : Linearization κ α Aux) (init init' : α) :
    Outcome.Related Eq SameFind
      (search.attempt objective descent y (searchOptions linear tags y init))
      (search.attempt objective descent y (searchOptions linear tags y init')) := by
  unfold FixedStep.attempt
  refine Outcome.Related.bind (.of_eq rfl) ?_
  rintro step _ rfl
  split
  · refine Outcome.Related.bind (.of_eq rfl) ?_
    rintro value _ rfl
    refine Outcome.Related.bind (.of_eq rfl) ?_
    rintro answer _ rfl
    exact .ok ⟨rfl, rfl, rfl⟩
  · exact .ok ⟨rfl, rfl, rfl⟩

variable {tolerance : Tolerance α} {norm : Norm α} {descent : Descent κ α} {search : FixedStep α}

/-- With steps of a fixed size all states make the same step. -/
theorem step_of_fixedStep (state state' : GaussNewtonState κ α) :
    Outcome.Related Eq SameMove
      ((withSearch tolerance norm descent (.fixed search)).step residual tags y state)
      ((withSearch tolerance norm descent (.fixed search)).step residual tags y state') := by
  unfold step withSearch
  refine Outcome.Related.bind (.of_eq rfl) ?_
  rintro linear _ rfl
  dsimp only
  rw [StandardSearch.search_fixed, StandardSearch.search_fixed]
  refine (fixedStep_of_options search residual.objective descent linear state.stepSize
    state'.stepSize).bind fun found found' hfound => ?_
  rw [hfound.value]
  refine Outcome.Related.bind (.of_eq rfl) ?_
  rintro diff _ rfl
  exact .ok ⟨rfl, ⟨rfl, rfl, congrArg stepStatus hfound.status⟩, hfound.aux⟩

/-- So from iterates at one point the runs go on alike. -/
theorem advance_continues {k : Nat} {it it' : Iterate κ α Aux (GaussNewtonState κ α)}
    (h : Continues k it it') :
    Outcome.Related (FailsAlike k) (Continues k)
      ((withSearch tolerance norm descent (.fixed search)).toSolver.advance residual tags it)
      ((withSearch tolerance norm descent (.fixed search)).toSolver.advance residual tags it') := by
  have hstep : Outcome.Related Eq SameMove
      ((withSearch tolerance norm descent (.fixed search)).step residual tags it.point it.state)
      ((withSearch tolerance norm descent (.fixed search)).step residual tags it.point it'.state) :=
    step_of_fixedStep it.state it'.state
  unfold IterativeSolver.advance
  dsimp only [toSolver]
  rw [h.point, h.numSteps]
  generalize (withSearch tolerance norm descent (.fixed search)).step residual tags it.point
    it.state = next at hstep
  generalize (withSearch tolerance norm descent (.fixed search)).step residual tags it.point
    it'.state = next' at hstep
  cases hstep with
  | ok hmove => exact .ok ⟨hmove.point, rfl, fun _ => ⟨congrArg some hmove.aux, hmove.state⟩⟩
  | @error failure failure' heq =>
      subst heq
      cases failure with
      | broken fault => exact .error (.broken fault)
      | reported error => exact .error (.reported error it.point it'.numSteps)

/-- The run that is begun again: the induction is on the number of its steps. -/
theorem iterateAt_continues {k : Nat} {it : Iterate κ α Aux (GaussNewtonState κ α)}
    (h : (withSearch tolerance norm descent (.fixed search)).toSolver.iterateAt residual tags y k =
      .ok it) (j : Nat) :
    Outcome.Related (FailsAlike k) (Continues k)
      ((withSearch tolerance norm descent (.fixed search)).toSolver.iterateAt residual tags y (k + j))
      ((withSearch tolerance norm descent (.fixed search)).toSolver.iterateAt residual tags it.point
        j) := by
  induction j with
  | zero =>
      rw [Nat.add_zero, h]
      have hsteps := IterativeSolver.numSteps_of_iterateAt h
      exact .ok ⟨rfl, hsteps, fun hzero => absurd hzero (Nat.lt_irrefl 0)⟩
  | succ j ih =>
      rw [← Nat.add_assoc, IterativeSolver.iterateAt_succ_eq_bind,
        IterativeSolver.iterateAt_succ_eq_bind]
      exact ih.bind fun before before' hbefore => advance_continues hbefore

/-- An iterate of the run that is begun again lies on the run, with its auxiliary output. -/
theorem exists_of_continues {k j : Nat} {it it' : Iterate κ α Aux (GaussNewtonState κ α)}
    (h : (withSearch tolerance norm descent (.fixed search)).toSolver.iterateAt residual tags y k =
      .ok it)
    (hit' : (withSearch tolerance norm descent (.fixed search)).toSolver.iterateAt residual tags
      it.point j = .ok it') :
    ∃ later, (withSearch tolerance norm descent (.fixed search)).toSolver.iterateAt residual tags y
        (k + j) = .ok later ∧ Continues k later it' ∧
      later.lastAux residual = it'.lastAux residual := by
  have hrelated := iterateAt_continues h j
  rw [hit'] at hrelated
  obtain ⟨later, hlater, hcontinues⟩ := hrelated.exists_of_ok_right
  refine ⟨later, hlater, hcontinues, ?_⟩
  rw [lastAux_of_iterateAt hlater, lastAux_of_iterateAt hit', hcontinues.point]

/-- **A step forgets.** Whatever the descent and the line search are, two states with one step size
lead to the same error or to the same point with the same auxiliary output, step size, change,
objective and status, and they differ afterwards in the objective that is remembered second, which is
the one of the state before. With steps of a fixed size the states need not even share the step size.
Then a run that is begun again at the point after `k` steps of a run goes through the points of this run
from there on, with the same auxiliary outputs, changes, objectives and statuses, and a step of it errs
where the step of the run does and alike. What a solve from this point answers is on the run, and so is
the point of its failure. -/
theorem step_forgets (residual : Residual κ α Aux) (tags : Tags) (y : Tree κ α) :
    (∀ (method : GaussNewton κ α Aux) (state state' : GaussNewtonState κ α),
        state'.stepSize = state.stepSize →
        Outcome.Related Eq
          (fun next next' => SameMove next next' ∧ next'.2.1.stepSize = next.2.1.stepSize ∧
            next.2.1.previous = state.objective ∧ next'.2.1.previous = state'.objective)
          (method.step residual tags y state) (method.step residual tags y state')) ∧
      ∀ (tolerance : Tolerance α) (norm : Norm α) (descent : Descent κ α) (search : FixedStep α),
        let method : GaussNewton κ α Aux := withSearch tolerance norm descent (.fixed search)
        (∀ state state', Outcome.Related Eq SameMove (method.step residual tags y state)
            (method.step residual tags y state')) ∧
          ∀ k it, method.toSolver.iterateAt residual tags y k = .ok it →
            (∀ j, Outcome.Related (FailsAlike k) (Continues k)
              (method.toSolver.iterateAt residual tags y (k + j))
              (method.toSolver.iterateAt residual tags it.point j)) ∧
            ∀ maxSteps throwing,
              (∀ solution, method.toSolver.solve residual it.point ⟨maxSteps, throwing, tags⟩ =
                  .ok solution →
                ∃ later,
                  method.toSolver.iterateAt residual tags y (k + solution.numSteps) = .ok later ∧
                    later.point = solution.value ∧ later.lastAux residual = .ok solution.aux ∧
                    (0 < solution.numSteps → SameStep later.state solution.state)) ∧
              ∀ failure, method.toSolver.solve residual it.point ⟨maxSteps, throwing, tags⟩ =
                  .error (.reported failure) →
                ∃ later,
                  method.toSolver.iterateAt residual tags y (k + failure.numSteps) = .ok later ∧
                    later.point = failure.value := by
  refine ⟨fun method state state' h => step_of_stepSize method h,
    fun tolerance norm descent search => ?_⟩
  intro method
  refine ⟨step_of_fixedStep, fun k it hit => ⟨iterateAt_continues hit, fun maxSteps throwing =>
    ⟨fun solution hsolution => ?_, fun failure hfailure => ?_⟩⟩⟩
  · obtain ⟨it', hit', hpoint, hstate, haux⟩ := iterateAt_of_solve hsolution
    obtain ⟨later, hlater, hcontinues, hlast⟩ := exists_of_continues hit hit'
    have hsteps := IterativeSolver.numSteps_of_iterateAt hit'
    refine ⟨later, hlater, hcontinues.point.symm.trans hpoint, hlast.trans haux, fun hpos => ?_⟩
    rw [← hstate]
    exact (hcontinues.last (hsteps.symm ▸ hpos)).2
  · obtain ⟨it', hit', hpoint⟩ := iterateAt_of_failure hfailure
    obtain ⟨later, hlater, hcontinues, -⟩ := exists_of_continues hit hit'
    exact ⟨later, hlater, hcontinues.point.symm.trans hpoint⟩

section Halves

open Exact

/-- Half steps towards the root of twice the point less six. -/
noncomputable def halves : GaussNewton Unit Exact Unit :=
  withSearch ⟨real 0, real 1⟩ .max (NewtonDescent.toDescent {}) (.fixed ⟨Scalar.half⟩)

theorem halves_iterateAt (k : Nat) :
    ∃ it, halves.toSolver.iterateAt doubledLessSix {} (.scalar (real 0)) k = .ok it ∧
      it.point = .scalar (real (3 - (1 - 1 / 2) ^ k * 3)) := by
  obtain ⟨it, hit, hpoint⟩ := iterateAt_fixedRate (s := .scalar (real 0)) (x := (![0] : Fin 1 → ℝ))
    ⟨real 0, real 1⟩ .max doubledLessSix_isAffine solvesLeastSquares_two isLeastSquares_three (1 / 2) k
  rw [withReals_of_leaves leaves_zero, ← half_eq] at hit
  exact ⟨it, hit, eq_scalar_of_isOffBy hpoint⟩

/-- From zero two states of which one has failed before make the same step. And the run that is begun
again after the first step, at three halves, comes to nine quarters like the run itself. -/
theorem step_forgets_halves :
    Outcome.Related Eq
        (fun next next' => SameMove next next' ∧ next'.2.1.stepSize = next.2.1.stepSize ∧
          next.2.1.previous = posInf ∧ next'.2.1.previous = real 7)
        (halves.step doubledLessSix {} (.scalar (real 0)) (start (.scalar (real 0))))
        (halves.step doubledLessSix {} (.scalar (real 0))
          ⟨1, .scalar (real 5), real 7, real 9, .singular⟩) ∧
      ∃ it again, halves.toSolver.iterateAt doubledLessSix {} (.scalar (real 0)) 1 = .ok it ∧
        it.point = .scalar (real (3 / 2)) ∧
        halves.toSolver.iterateAt doubledLessSix {} it.point 1 = .ok again ∧
        again.point = .scalar (real (9 / 4)) := by
  obtain ⟨hsteps, hfixed⟩ := step_forgets doubledLessSix {} (.scalar (real 0))
  refine ⟨hsteps halves (start (.scalar (real 0))) ⟨1, .scalar (real 5), real 7, real 9, .singular⟩
    rfl, ?_⟩
  obtain ⟨it, hit, hpoint⟩ := halves_iterateAt 1
  obtain ⟨later, hlater, hquarters⟩ := halves_iterateAt 2
  obtain ⟨-, hrestart⟩ := hfixed ⟨real 0, real 1⟩ .max (NewtonDescent.toDescent {}) ⟨Scalar.half⟩
  have hrelated : Outcome.Related (FailsAlike 1) (Continues 1)
      (halves.toSolver.iterateAt doubledLessSix {} (.scalar (real 0)) 2)
      (halves.toSolver.iterateAt doubledLessSix {} it.point 1) := (hrestart 1 it hit).1 1
  rw [hlater] at hrelated
  obtain ⟨again, hagain, hcontinues⟩ := hrelated.exists_of_ok_left
  have hhalves : (3 : ℝ) - (1 - 1 / 2) ^ 1 * 3 = 3 / 2 := by norm_num
  have hnine : (3 : ℝ) - (1 - 1 / 2) ^ 2 * 3 = 9 / 4 := by norm_num
  refine ⟨it, again, hit, hpoint.trans (by rw [hhalves]), hagain, ?_⟩
  rw [hcontinues.point, hquarters, hnine]

end Halves

end GaussNewton

end LeastSquares
