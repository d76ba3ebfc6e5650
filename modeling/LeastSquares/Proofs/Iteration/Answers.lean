import LeastSquares.Iteration.GaussNewton
import LeastSquares.Proofs.Iteration.Exits

/-!
# Answers as iterates

Whatever a solve answers or reports, it does so at an iterate of the trajectory. An answer is such an
iterate with its auxiliary output; a failure is the error of the step from such an iterate, or a
failing status that was to be thrown. Throwing makes a difference to a failing status alone, so a
solve that throws is told by the one that does not.
-/

namespace LeastSquares

variable {κ α Aux : Type}

namespace IterativeSolver

variable {State : Type} {solver : IterativeSolver κ α Aux State} {residual : Residual κ α Aux}
  {tags : Tags} {y : Tree κ α} {maxSteps : Nat}

/-- An answer is an iterate with the auxiliary output that goes with it. -/
theorem EndsWith.answer {solution : Solution κ α Aux State}
    (h : solver.EndsWith residual tags y maxSteps (.ok solution)) :
    ∃ it, solver.iterateAt residual tags y solution.numSteps = .ok it ∧
      it.point = solution.value ∧ it.state = solution.state ∧
      it.lastAux residual = .ok solution.aux := by
  cases h with
  | stopped k it status aux hk h haux => exact ⟨it, h.reached, rfl, rfl, haux⟩
  | spent it aux h haux => exact ⟨it, h.reached, rfl, rfl, haux⟩

/-- An answer in success is an iterate where the test says stop with success. -/
theorem EndsWith.success {solution : Solution κ α Aux State}
    (h : solver.EndsWith residual tags y maxSteps (.ok solution))
    (hsuccess : solution.status = .successful) :
    ∃ it, solver.StopsFirstAt residual tags y solution.numSteps it .successful := by
  cases h with
  | stopped k it status aux hk h haux => exact ⟨it, hsuccess ▸ h⟩
  | spent it aux h haux => cases hsuccess

/-- A failure that was not thrown is the error of the step from an iterate. -/
theorem EndsWith.failure {failure : SolveFailure κ α}
    (h : solver.EndsWith residual tags y maxSteps (.error (.reported failure))) :
    ∃ it, solver.ErrsFirstAt residual tags y failure.numSteps it failure.error ∧
      it.point = failure.value := by
  generalize hfailed : (Except.error (Failure.reported failure) :
    Outcome (SolveFailure κ α) (Solution κ α Aux State)) = outcome at h
  cases h with
  | stopped k it status aux hk h haux => cases hfailed
  | erred k it error hk h =>
      cases hfailed
      exact ⟨it, h, rfl⟩
  | spent it aux h haux => cases hfailed
  | faulted fault h => cases hfailed

/-- A failing status that is thrown is an error at the last iterate. -/
theorem conclude_thrown (it : Iterate κ α Aux State) {status : Status}
    (h : status ≠ .successful) :
    conclude residual true it status =
      Outcome.report ⟨.solve status it.numSteps, it.point, it.numSteps⟩ := by
  simp [conclude, Status.isSuccessful_eq_false h]

/-- A run that ends with a failing status is the error of that status when failing statuses are
thrown. -/
theorem RunEnds.solve_thrown {k : Nat} {it : Iterate κ α Aux State} {status : Status}
    (h : solver.RunEnds residual tags y maxSteps k it status) (hfails : status ≠ .successful) :
    solver.solve residual y ⟨maxSteps, true, tags⟩ =
      Outcome.report ⟨.solve status k, it.point, k⟩ := by
  rw [h.solve, conclude_thrown it hfails, numSteps_of_iterateAt h.reached]

theorem StopsFirstAt.solve_thrown {k : Nat} {it : Iterate κ α Aux State} {status : Status}
    (h : solver.StopsFirstAt residual tags y k it status) (hk : k ≤ maxSteps)
    (hfails : status ≠ .successful) :
    solver.solve residual y ⟨maxSteps, true, tags⟩ =
      Outcome.report ⟨.solve status k, it.point, k⟩ :=
  (RunEnds.stopped hk h).solve_thrown hfails

/-- Throwing turns a failing status at some iterate into an error, and changes nothing else. -/
theorem solve_eq_unthrown_or (solver : IterativeSolver κ α Aux State)
    (residual : Residual κ α Aux) (y : Tree κ α) (config : Config) :
    solver.solve residual y config =
        solver.solve residual y ⟨config.maxSteps, false, config.tags⟩ ∨
      config.throw = true ∧ ∃ (it : Iterate κ α Aux State) (status : Status),
        solver.iterateAt residual config.tags y it.numSteps = .ok it ∧ status ≠ .successful ∧
          solver.solve residual y config =
            Outcome.report ⟨.solve status it.numSteps, it.point, it.numSteps⟩ := by
  obtain ⟨maxSteps, throwing, tags⟩ := config
  unfold solve
  cases hstart : solver.start residual tags y with
  | error fault => exact .inl rfl
  | ok state =>
      simp only [Outcome.liftM_eq_toOutcome, Checked.toOutcome_ok, Outcome.ok_bind]
      cases hlast : solver.iterate residual tags maxSteps ⟨y, state, none, 0⟩ with
      | error e => exact .inl rfl
      | ok last =>
          obtain ⟨it, status⟩ := last
          cases throwing with
          | false => exact .inl rfl
          | true =>
              by_cases hstatus : status = .successful
              · subst hstatus
                exact .inl rfl
              · have hends := iterate_ends maxSteps 0 ⟨y, state, none, 0⟩ (Nat.zero_add maxSteps)
                  (iterateAt_zero_eq_ok.mpr ⟨state, hstart, rfl⟩)
                  fun j hj => absurd hj (Nat.not_lt_zero j)
                rw [hlast] at hends
                cases hends with
                | ended k it status h =>
                    have hcount := numSteps_of_iterateAt h.reached
                    exact .inr ⟨rfl, it, status, hcount ▸ h.reached, hstatus,
                      conclude_thrown it hstatus⟩

end IterativeSolver

namespace GaussNewton

variable [Scalar α] {method : GaussNewton κ α Aux} {residual : Residual κ α Aux} {y : Tree κ α}
  {config : Config}

/-- A Gauss–Newton method always starts, so its solves end in one of the ways of any solve. -/
theorem solve_endsWith (method : GaussNewton κ α Aux) (residual : Residual κ α Aux) (tags : Tags)
    (y : Tree κ α) (maxSteps : Nat) :
    method.toSolver.EndsWith residual tags y maxSteps
      (method.toSolver.solve residual y ⟨maxSteps, false, tags⟩) :=
  IterativeSolver.endsWith_of_goesOn maxSteps 0 ⟨y, GaussNewton.start y, none, 0⟩
    (Nat.zero_add maxSteps) rfl fun j hj => absurd hj (Nat.not_lt_zero j)

/-- An answer is an iterate with the auxiliary output that goes with it. -/
theorem iterateAt_of_solve {solution : Solution κ α Aux (GaussNewtonState κ α)}
    (h : method.toSolver.solve residual y config = .ok solution) :
    ∃ it, method.toSolver.iterateAt residual config.tags y solution.numSteps = .ok it ∧
      it.point = solution.value ∧ it.state = solution.state ∧
      it.lastAux residual = .ok solution.aux := by
  have hends := solve_endsWith method residual config.tags y config.maxSteps
  rcases method.toSolver.solve_eq_unthrown_or residual y config with heq | ⟨-, it, status, -, -, heq⟩
  · rw [← heq, h] at hends
    exact hends.answer
  · exact nomatch h.symm.trans heq

/-- A solve that answers success has stopped where the test said so. -/
theorem stopsFirstAt_of_success {solution : Solution κ α Aux (GaussNewtonState κ α)}
    (h : method.toSolver.solve residual y config = .ok solution)
    (hsuccess : solution.status = .successful) :
    ∃ it, method.toSolver.StopsFirstAt residual config.tags y solution.numSteps it .successful := by
  have hends := solve_endsWith method residual config.tags y config.maxSteps
  rcases method.toSolver.solve_eq_unthrown_or residual y config with heq | ⟨-, it, status, -, -, heq⟩
  · rw [← heq, h] at hends
    exact hends.success hsuccess
  · exact nomatch h.symm.trans heq

/-- A failure is a failing status that was thrown, or the error of the step from an iterate. -/
theorem failure_of_solve {failure : SolveFailure κ α}
    (h : method.toSolver.solve residual y config = .error (.reported failure)) :
    (config.throw = true ∧ ∃ status, status ≠ .successful ∧
        failure.error = .solve status failure.numSteps) ∨
      ∃ it, method.toSolver.ErrsFirstAt residual config.tags y failure.numSteps it
        failure.error ∧ it.point = failure.value := by
  have hends := solve_endsWith method residual config.tags y config.maxSteps
  rcases method.toSolver.solve_eq_unthrown_or residual y config with
    heq | ⟨hthrow, it, status, -, hstatus, heq⟩
  · rw [← heq, h] at hends
    exact .inr hends.failure
  · cases h.symm.trans heq
    exact .inl ⟨hthrow, status, hstatus, rfl⟩

/-- A failure is found at an iterate, whether it was thrown or not. -/
theorem iterateAt_of_failure {failure : SolveFailure κ α}
    (h : method.toSolver.solve residual y config = .error (.reported failure)) :
    ∃ it, method.toSolver.iterateAt residual config.tags y failure.numSteps = .ok it ∧
      it.point = failure.value := by
  have hends := solve_endsWith method residual config.tags y config.maxSteps
  rcases method.toSolver.solve_eq_unthrown_or residual y config with
    heq | ⟨-, it, status, hit, -, heq⟩
  · rw [← heq, h] at hends
    obtain ⟨it, herrs, hvalue⟩ := hends.failure
    exact ⟨it, herrs.reached, hvalue⟩
  · cases h.symm.trans heq
    exact ⟨it, hit, rfl⟩

end GaussNewton

end LeastSquares
