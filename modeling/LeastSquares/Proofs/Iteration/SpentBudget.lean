import LeastSquares.Proofs.Iteration.StepEnds
import LeastSquares.Proofs.Iteration.Throwing

/-!
# A spent budget

One status has two meanings. A line search leaves it when its trials ran out, and a solve ends with it
when its steps ran out. They do not get into each other's way: a step whose search ran out counts as
successful, so no state of a run holds the status, whatever the descent and the line search are. Hence
the stopping test never ends a run with it either, and a solve that reports it has taken every step of
its budget, was successful in all of them, and was not settled at any point from the first to the last
(`solve_maxStepsReached_iff`).
-/

namespace LeastSquares

variable {κ α Aux : Type}

namespace IterativeSolver

variable {State : Type} {solver : IterativeSolver κ α Aux State} {residual : Residual κ α Aux}
  {tags : Tags} {y : Tree κ α} {config : Config} {status : Status} {k : Nat}

/-- A solve reports a status after `k` steps: its answer holds the status, or its failure has the
status behind it and is not the error of the step after `k` steps, which is passed on as it is. -/
inductive Reports (solver : IterativeSolver κ α Aux State) (residual : Residual κ α Aux)
    (y : Tree κ α) (config : Config) (status : Status) (k : Nat) : Prop
  | answered (solution : Solution κ α Aux State)
      (h : solver.solve residual y config = .ok solution)
      (hstatus : solution.status = status) (hcount : solution.numSteps = k)
  | thrown (failure : SolveFailure κ α)
      (h : solver.solve residual y config = .error (.reported failure))
      (hstatus : failure.status? = some status) (hcount : failure.numSteps = k)
      (hown : k < config.maxSteps →
        ∀ it, ¬solver.ErrsFirstAt residual config.tags y k it failure.error)

/-- A status that is not thrown is concluded as if nothing were. -/
theorem conclude_of_unthrown {throwing : Bool} {it : Iterate κ α Aux State}
    (h : ¬(throwing && !status.isSuccessful) = true) :
    conclude residual throwing it status = conclude residual false it status := by
  simp [conclude, h]

/-- An answer at the last iterate has the status of the run and the auxiliary output there. -/
theorem conclude_eq_ok {throwing : Bool} {it : Iterate κ α Aux State}
    {solution : Solution κ α Aux State}
    (h : conclude residual throwing it status = .ok solution) :
    it.lastAux residual = .ok solution.aux ∧
      solution = ⟨it.point, status, solution.aux, it.numSteps, it.state⟩ := by
  by_cases hthrow : (throwing && !status.isSuccessful) = true
  · rw [conclude, if_pos hthrow] at h
    cases h
  · rw [conclude_of_unthrown hthrow, conclude_unthrown] at h
    obtain ⟨aux, haux, heq⟩ := Outcome.bind_eq_ok.mp h
    cases heq
    exact ⟨Checked.toOutcome_eq_ok.mp haux, rfl⟩

/-- A failure at the last iterate is the status of the run, thrown. -/
theorem conclude_eq_reported {throwing : Bool} {it : Iterate κ α Aux State}
    {failure : SolveFailure κ α}
    (h : conclude residual throwing it status = .error (.reported failure)) :
    throwing = true ∧ failure = ⟨.solve status it.numSteps, it.point, it.numSteps⟩ := by
  by_cases hthrow : (throwing && !status.isSuccessful) = true
  · rw [conclude, if_pos hthrow] at h
    cases h
    exact ⟨(Bool.and_eq_true_iff.mp hthrow).1, rfl⟩
  · rw [conclude_of_unthrown hthrow, conclude_unthrown] at h
    cases haux : it.lastAux residual with
    | ok aux => rw [haux] at h; cases h
    | error fault => rw [haux] at h; cases h

/-- A step has left an auxiliary output, and without steps the residual is asked for it. -/
theorem exists_lastAux_iff {it : Iterate κ α Aux State}
    (h : solver.iterateAt residual tags y k = .ok it) :
    (∃ aux, it.lastAux residual = .ok aux) ↔ k ≠ 0 ∨ ∃ aux, residual.auxAt y = .ok aux := by
  cases k with
  | zero => simp [lastAux_zero h]
  | succ k => simp [lastAux_succ h]

/-- A run does not both end after `k` steps and go on to a step that errs. -/
theorem RunEnds.not_errs {maxSteps : Nat} {it it' : Iterate κ α Aux State} {error : Error}
    (h : solver.RunEnds residual tags y maxSteps k it status) (hk : k < maxSteps) :
    ¬solver.ErrsFirstAt residual tags y k it' error := by
  intro herrs
  obtain ⟨last, goes, hlast, hgoes⟩ := herrs.before k (Nat.le_refl k)
  cases h with
  | stopped hle hstops =>
      cases hstops.reached.symm.trans hlast
      cases hstops.stops.symm.trans hgoes
  | spent hspent => exact Nat.lt_irrefl _ hk

/-- What a solve reports is the status that its run ended with. -/
theorem Reports.runEnds (h : solver.Reports residual y config status k) :
    ∃ it, solver.RunEnds residual config.tags y config.maxSteps k it status ∧
      (config.throw = true ∨ ∃ aux, it.lastAux residual = .ok aux) := by
  obtain ⟨maxSteps, throwing, tags⟩ := config
  rcases solver.run_ends residual tags y maxSteps with
    ⟨j, it, status', hends⟩ | ⟨j, it, error, hj, herrs⟩ | ⟨fault, hfaults⟩
  · have hsolve := hends.solve throwing
    have hsteps := numSteps_of_iterateAt hends.reached
    cases h with
    | answered solution h hstatus hcount =>
        obtain ⟨haux, heq⟩ := conclude_eq_ok (hsolve.symm.trans h)
        rw [heq] at hstatus hcount
        obtain rfl : status' = status := hstatus
        obtain rfl : j = k := hsteps.symm.trans hcount
        exact ⟨it, hends, .inr ⟨_, haux⟩⟩
    | thrown failure h hstatus hcount hown =>
        obtain ⟨hthrow, rfl⟩ := conclude_eq_reported (hsolve.symm.trans h)
        obtain rfl : status' = status := Option.some.inj hstatus
        obtain rfl : j = k := hsteps.symm.trans hcount
        exact ⟨it, hends, .inl hthrow⟩
  · have hfailed : solver.solve residual y ⟨maxSteps, throwing, tags⟩ =
        Outcome.report ⟨error, it.point, j⟩ := herrs.solve hj
    cases h with
    | answered solution h hstatus hcount => cases hfailed.symm.trans h
    | thrown failure h hstatus hcount hown =>
        cases hfailed.symm.trans h
        cases hcount
        exact absurd herrs (hown hj it)
  · cases h with
    | answered solution h hstatus hcount => cases (hfaults throwing).symm.trans h
    | thrown failure h hstatus hcount hown => cases (hfaults throwing).symm.trans h

/-- A failing status is reported exactly where a run ends with it. The answer waits for the auxiliary
output; a failure does not. -/
theorem reports_iff (hfails : status ≠ .successful) :
    solver.Reports residual y config status k ↔
      ∃ it, solver.RunEnds residual config.tags y config.maxSteps k it status ∧
        (config.throw = true ∨ ∃ aux, it.lastAux residual = .ok aux) := by
  refine ⟨Reports.runEnds, ?_⟩
  rintro ⟨it, hends, hanswers⟩
  obtain ⟨maxSteps, throwing, tags⟩ := config
  cases throwing with
  | true => exact .thrown _ (hends.solve_thrown hfails) rfl rfl fun hk it' => hends.not_errs hk
  | false =>
      obtain hthrow | ⟨aux, haux⟩ := hanswers
      · cases hthrow
      · have hsolve := hends.solve_unthrown
        rw [haux] at hsolve
        exact .answered _ hsolve rfl rfl

end IterativeSolver

namespace GaussNewton

variable [Scalar α] {residual : Residual κ α Aux} {tags : Tags} {y : Tree κ α}

/-- The test of the point or the test of the objective says that there is still movement. -/
def Unsettled (method : GaussNewton κ α Aux) (y : Tree κ α) (state : GaussNewtonState κ α) : Prop :=
  ∃ settled, pointSettled method.tolerance method.norm y state.diff = .ok settled ∧
    (settled && objectiveSettled method.tolerance state.objective state.previous) = false

/-- The test says to go on exactly after a success that left movement. -/
theorem stop_eq_goOn_iff {method : GaussNewton κ α Aux} {state : GaussNewtonState κ α} :
    (∃ status, method.stop y state = .ok (false, status)) ↔
      state.status = .successful ∧ method.Unsettled y state := by
  unfold stop stopping Unsettled
  by_cases hstatus : state.status = .successful
  · simp only [hstatus, Status.isSuccessful_iff, if_true, Outcome.bind_eq_ok, Outcome.pure_eq_ok,
      Except.ok.injEq, Prod.mk.injEq, true_and]
    constructor
    · rintro ⟨status, settled, hsettled, hmoves, -⟩
      exact ⟨settled, hsettled, hmoves⟩
    · rintro ⟨settled, hsettled, hmoves⟩
      exact ⟨_, settled, hsettled, hmoves, rfl⟩
  · simp [hstatus, Status.isSuccessful_eq_false hstatus]

theorem goesOnAt_iff {method : GaussNewton κ α Aux} {k : Nat} :
    method.toSolver.GoesOnAt residual tags y k ↔
      ∃ it, method.toSolver.iterateAt residual tags y k = .ok it ∧
        it.state.status = .successful ∧ method.Unsettled it.point it.state := by
  constructor
  · rintro ⟨it, status, hit, hstop⟩
    exact ⟨it, hit, stop_eq_goOn_iff.mp ⟨status, hstop⟩⟩
  · rintro ⟨it, hit, hgoes⟩
    obtain ⟨status, hstop⟩ := stop_eq_goOn_iff.mpr hgoes
    exact ⟨it, status, hit, hstop⟩

/-- The test hands on the status of the state. -/
theorem status_of_stop {method : GaussNewton κ α Aux} {state : GaussNewtonState κ α} {done : Bool}
    {status : Status} (h : method.stop y state = .ok (done, status)) : status = state.status := by
  unfold stop stopping at h
  split at h
  · obtain ⟨settled, -, heq⟩ := Outcome.bind_eq_ok.mp h
    cases heq
    rfl
  · cases h
    rfl

theorem stepStatus_ne_maxStepsReached (status : Status) : stepStatus status ≠ .maxStepsReached := by
  cases status <;> decide

/-- A search that ran out leaves a success, so no state says that steps ran out. -/
theorem iterateAt_status_ne {method : GaussNewton κ α Aux} (k : Nat)
    (it : Iterate κ α Aux (GaussNewtonState κ α))
    (h : method.toSolver.iterateAt residual tags y k = .ok it) :
    it.state.status ≠ .maxStepsReached := by
  cases k with
  | zero =>
      obtain ⟨state, hstart, rfl⟩ := IterativeSolver.iterateAt_zero_eq_ok.mp h
      cases hstart
      exact nofun
  | succ k =>
      obtain ⟨before, -, hadvance⟩ := IterativeSolver.iterateAt_succ_eq_ok.mp h
      obtain ⟨point, state, aux, hstep, rfl⟩ := IterativeSolver.advance_eq_ok.mp hadvance
      obtain ⟨linear, found, diff, -, -, -, -, -, rfl⟩ := step_eq_ok.mp hstep
      exact stepStatus_ne_maxStepsReached found.status

/-- So the test never stops a run with this status: only a spent budget ends it so. -/
theorem runEnds_maxStepsReached_iff {method : GaussNewton κ α Aux} {maxSteps k : Nat}
    {it : Iterate κ α Aux (GaussNewtonState κ α)} :
    method.toSolver.RunEnds residual tags y maxSteps k it .maxStepsReached ↔
      k = maxSteps ∧ method.toSolver.RunsOut residual tags y maxSteps it := by
  constructor
  · intro h
    cases h with
    | stopped hk hstops =>
        have hstatus := status_of_stop hstops.stops
        exact absurd hstatus.symm (iterateAt_status_ne k it hstops.reached)
    | spent hspent => exact ⟨rfl, hspent⟩
  · rintro ⟨rfl, hspent⟩
    exact .spent hspent

/-- **A spent budget.** Whatever the descent and the line search are, no state of a run ever says that
the steps ran out. And a solve reports this exactly if it took as many steps as its budget has, all of
them left a success, and the test found movement at every point from the first to the last. Where
nothing is thrown and there is no budget at all, the residual has to have an auxiliary output for the
answer. -/
theorem solve_maxStepsReached_iff (method : GaussNewton κ α Aux) (residual : Residual κ α Aux)
    (y : Tree κ α) (config : Config) :
    (∀ k it, method.toSolver.iterateAt residual config.tags y k = .ok it →
        it.state.status ≠ .maxStepsReached) ∧
      ∀ k, method.toSolver.Reports residual y config .maxStepsReached k ↔
        k = config.maxSteps ∧
          (∀ j ≤ config.maxSteps, ∃ it,
            method.toSolver.iterateAt residual config.tags y j = .ok it ∧
              it.state.status = .successful ∧ method.Unsettled it.point it.state) ∧
          (config.throw = true ∨ config.maxSteps ≠ 0 ∨ ∃ aux, residual.auxAt y = .ok aux) := by
  refine ⟨iterateAt_status_ne, fun k => ?_⟩
  rw [IterativeSolver.reports_iff (by decide)]
  constructor
  · rintro ⟨it, hends, hanswers⟩
    obtain ⟨rfl, hspent⟩ := runEnds_maxStepsReached_iff.mp hends
    refine ⟨rfl, fun j hj => goesOnAt_iff.mp (hspent.before j hj), ?_⟩
    exact hanswers.imp_right (IterativeSolver.exists_lastAux_iff hspent.reached).mp
  · rintro ⟨rfl, hgoes, hanswers⟩
    obtain ⟨it, hit, -⟩ := hgoes config.maxSteps (Nat.le_refl _)
    have hspent : method.toSolver.RunsOut residual config.tags y config.maxSteps it :=
      ⟨hit, fun j hj => goesOnAt_iff.mpr (hgoes j hj)⟩
    exact ⟨it, .spent hspent, hanswers.imp_right (IterativeSolver.exists_lastAux_iff hit).mpr⟩

section Weary

open Exact

/-- A search that runs out of trials at once and stays where it is. -/
def weary : LineSearch κ α Aux where
  search _ _ y options _ := .ok (.stay y options .maxStepsReached 1)

/-- Newton's descent, of which the search makes no use. -/
noncomputable def wearily : GaussNewton Unit Exact (List Exact) :=
  { tolerance := ⟨real 0, real 1⟩
    norm := .max
    descent := NewtonDescent.toDescent {}
    lineSearch := weary }

theorem wearily_iterateAt_one :
    ∃ objective, wearily.toSolver.iterateAt squarePlusOne {} (.scalar (real 2)) 1 =
      .ok ⟨.scalar (real 2), ⟨1, .scalar (real (2 - 2)), objective, posInf, .successful⟩,
        some [real 2], 1⟩ := ⟨_, rfl⟩

theorem wearily_goesOn {j : Nat} (hj : j ≤ 1) :
    wearily.toSolver.GoesOnAt squarePlusOne {} (.scalar (real 2)) j := by
  obtain ⟨objective, hone⟩ := wearily_iterateAt_one
  rcases Nat.le_one_iff_eq_zero_or_eq_one.mp hj with rfl | rfl
  · exact goesOn_of_posInf (IterativeSolver.iterateAt_zero_eq_ok.mpr ⟨_, rfl, rfl⟩) rfl rfl rfl
  · exact goesOn_of_posInf hone rfl rfl rfl

/-- Where every search runs out, the state after the first step is a success all the same, and the
solve with a budget of one step reports that it is spent. -/
theorem solve_maxStepsReached_wearily :
    (∃ it, wearily.toSolver.iterateAt squarePlusOne {} (.scalar (real 2)) 1 = .ok it ∧
        it.state.status ≠ .maxStepsReached) ∧
      wearily.toSolver.Reports squarePlusOne (.scalar (real 2)) ⟨1, true, {}⟩ .maxStepsReached 1 := by
  obtain ⟨hstatus, hreports⟩ :=
    solve_maxStepsReached_iff wearily squarePlusOne (.scalar (real 2)) ⟨1, true, {}⟩
  obtain ⟨objective, hone⟩ := wearily_iterateAt_one
  refine ⟨⟨_, hone, hstatus 1 _ hone⟩, ?_⟩
  exact (hreports 1).mpr ⟨rfl, fun j hj => goesOnAt_iff.mp (wearily_goesOn hj), .inl rfl⟩

end Weary

end GaussNewton

end LeastSquares
