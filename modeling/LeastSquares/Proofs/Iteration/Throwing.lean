import LeastSquares.Proofs.Iteration.Answers

/-!
# Throwing failing statuses

Whether failing statuses are thrown is looked at once, after the run. So a solve that throws them and
one that returns them follow the same run, which ends in one of three ways: by the test or the budget,
by the error of a step, or by the fault of a call. From there the two differ in a failing status alone.
What the one returns beside its status, the other reports beside its error, and the counts agree.

The only call that one of them makes and the other does not is the one for the auxiliary output of a
run without steps, which an answer has and a failure has not.
-/

namespace LeastSquares

/-- An error in the way a computation was set up, and not a failing status that was thrown. -/
def Error.IsConfiguration : Error → Prop
  | .missingVector | .missingOperator | .structureMismatch _ _ | .linearSolver _ => True
  | .lineSearch _ | .solve _ _ => False

/-- The errors without a status behind them are those of the setup. -/
theorem Error.status?_eq_none_iff (error : Error) :
    error.status? = none ↔ error.IsConfiguration := by
  cases error <;> simp [status?, IsConfiguration]

namespace IterativeSolver

variable {κ α Aux State : Type} {solver : IterativeSolver κ α Aux State}
  {residual : Residual κ α Aux} {tags : Tags} {y : Tree κ α}

/-- Throwing makes no difference to success. -/
theorem conclude_successful (throwing : Bool) (it : Iterate κ α Aux State) :
    conclude residual throwing it .successful = conclude residual false it .successful := by
  have hsuccess : Status.successful.isSuccessful = true := rfl
  simp [conclude, hsuccess]

/-- The ways for a run to end: by the test or the budget, by the error of a step, or, whether failing
statuses are thrown or not, by the fault of a call. -/
theorem run_ends (solver : IterativeSolver κ α Aux State) (residual : Residual κ α Aux) (tags : Tags)
    (y : Tree κ α) (maxSteps : Nat) :
    (∃ k it status, solver.RunEnds residual tags y maxSteps k it status) ∨
      (∃ k it error, k < maxSteps ∧ solver.ErrsFirstAt residual tags y k it error) ∨
      ∃ fault, ∀ throwing,
        solver.solve residual y ⟨maxSteps, throwing, tags⟩ = .error (.broken fault) := by
  cases hstart : solver.start residual tags y with
  | error fault => exact .inr (.inr ⟨fault, fun throwing => by simp [solve, hstart]⟩)
  | ok state =>
      have hends := iterate_ends maxSteps 0 ⟨y, state, none, 0⟩ (Nat.zero_add maxSteps)
        (iterateAt_zero_eq_ok.mpr ⟨state, hstart, rfl⟩) fun j hj => absurd hj (Nat.not_lt_zero j)
      generalize hlast : solver.iterate residual tags maxSteps ⟨y, state, none, 0⟩ = last at hends
      cases hends with
      | ended k it status h => exact .inl ⟨k, it, status, h⟩
      | erred k it error hk h => exact .inr (.inl ⟨k, it, error, hk, h⟩)
      | faulted fault h => exact .inr (.inr ⟨fault, fun throwing => by simp [solve, hstart, hlast]⟩)

/-- **Throwing failing statuses.** Two solves differ in this alone. If the run ends in success, they
are the same, and both answer its last iterate. If it ends with a failing status, the one answers the
last iterate with this status, and the other reports the status with the same count and the same point.
If a step errs, both report its error there, which has a status behind it unless it is one of the setup.
And there is no other way for the run to end but by a fault, which both have. -/
theorem solve_throw (solver : IterativeSolver κ α Aux State) (residual : Residual κ α Aux)
    (y : Tree κ α) (config : Config) :
    let returned := solver.solve residual y { config with throw := false }
    let thrown := solver.solve residual y { config with throw := true }
    (∀ k it, solver.RunEnds residual config.tags y config.maxSteps k it .successful →
        thrown = returned ∧ ∀ aux, it.lastAux residual = .ok aux →
          returned = .ok ⟨it.point, .successful, aux, k, it.state⟩) ∧
      (∀ k it status, solver.RunEnds residual config.tags y config.maxSteps k it status →
        status ≠ .successful →
        (∀ aux, it.lastAux residual = .ok aux →
          returned = .ok ⟨it.point, status, aux, k, it.state⟩) ∧
        ∃ failure : SolveFailure κ α, thrown = Outcome.report failure ∧
          failure.error = .solve status k ∧ failure.numSteps = k ∧ failure.value = it.point ∧
          failure.status? = some status) ∧
      (∀ k it error, k < config.maxSteps → solver.ErrsFirstAt residual config.tags y k it error →
        ∃ failure : SolveFailure κ α, returned = Outcome.report failure ∧
          thrown = Outcome.report failure ∧ failure.error = error ∧ failure.numSteps = k ∧
          failure.value = it.point ∧ (error.IsConfiguration → failure.status? = none)) ∧
      ((∃ k it status, solver.RunEnds residual config.tags y config.maxSteps k it status ∧
          ((∃ aux, it.lastAux residual = .ok aux) ∨
            k = 0 ∧ ∃ fault, residual.auxAt y = .error fault)) ∨
        (∃ k it error, k < config.maxSteps ∧
          solver.ErrsFirstAt residual config.tags y k it error) ∨
        ∃ fault, returned = .error (.broken fault) ∧ thrown = .error (.broken fault)) := by
  intro returned thrown
  have hanswer (k : Nat) (it : Iterate κ α Aux State) (status : Status)
      (h : solver.RunEnds residual config.tags y config.maxSteps k it status) (aux : Aux)
      (haux : it.lastAux residual = .ok aux) :
      returned = .ok ⟨it.point, status, aux, k, it.state⟩ := by
    have hunthrown := h.solve_unthrown
    rw [haux] at hunthrown
    exact hunthrown
  refine ⟨fun k it h => ⟨?_, hanswer k it .successful h⟩, fun k it status h hfails =>
    ⟨hanswer k it status h, ?_⟩, fun k it error hk h => ?_, ?_⟩
  · exact (h.solve true).trans ((conclude_successful true it).trans (h.solve false).symm)
  · exact ⟨⟨.solve status k, it.point, k⟩, h.solve_thrown hfails, rfl, rfl, rfl, rfl⟩
  · exact ⟨⟨error, it.point, k⟩, h.solve hk, h.solve hk, rfl, rfl, rfl,
      (Error.status?_eq_none_iff error).mpr⟩
  · rcases solver.run_ends residual config.tags y config.maxSteps with
      ⟨k, it, status, h⟩ | herrs | ⟨fault, hfaults⟩
    · refine .inl ⟨k, it, status, h, ?_⟩
      cases k with
      | zero =>
          rw [lastAux_zero h.reached]
          cases residual.auxAt y with
          | ok aux => exact .inl ⟨aux, rfl⟩
          | error fault => exact .inr ⟨rfl, fault, rfl⟩
      | succ k => exact .inl (lastAux_succ h.reached)
    · exact .inr (.inl herrs)
    · exact .inr (.inr ⟨fault, hfaults false, hfaults true⟩)

/-- Up to its second step the script of two steps says to go on. -/
theorem twoStepScript_goesOn (j : Nat) (hj : j < 2) :
    (replay twoStepScript).GoesOnAt identityResidual {} (.scalar 0) j := by
  rcases Nat.le_one_iff_eq_zero_or_eq_one.mp (Nat.le_of_lt_succ hj) with rfl | rfl
  · exact ⟨_, _, rfl, rfl⟩
  · exact ⟨_, _, rfl, rfl⟩

theorem failingScript_goesOn (j : Nat) (hj : j ≤ 1) :
    (replay failingScript).GoesOnAt identityResidual {} (.scalar 0) j := by
  rcases Nat.le_one_iff_eq_zero_or_eq_one.mp hj with rfl | rfl
  · exact ⟨_, _, rfl, rfl⟩
  · exact ⟨_, _, rfl, rfl⟩

/-- A run that ends in success after two steps, the same with a budget of one step, and a run whose
second step was set up wrongly. -/
theorem solve_throw_scripts :
    (replay twoStepScript).solve identityResidual (.scalar 0) ⟨2, true, {}⟩ =
        (replay twoStepScript).solve identityResidual (.scalar 0) ⟨2, false, {}⟩ ∧
      ((replay twoStepScript).solve identityResidual (.scalar 0) ⟨1, false, {}⟩ =
          .ok ⟨.scalar 1, .maxStepsReached, (), 1, 1⟩ ∧
        ∃ failure : SolveFailure Unit Nat,
          (replay twoStepScript).solve identityResidual (.scalar 0) ⟨1, true, {}⟩ =
            Outcome.report failure ∧
          failure.error = .solve .maxStepsReached 1 ∧ failure.numSteps = 1 ∧
          failure.value = .scalar 1 ∧ failure.status? = some .maxStepsReached) ∧
      ∃ failure : SolveFailure Unit Nat,
        (replay failingScript).solve identityResidual (.scalar 0) ⟨2, false, {}⟩ =
          Outcome.report failure ∧
        (replay failingScript).solve identityResidual (.scalar 0) ⟨2, true, {}⟩ =
          Outcome.report failure ∧
        failure.error = .missingVector ∧ failure.numSteps = 1 ∧ failure.value = .scalar 1 ∧
        failure.status? = none := by
  obtain ⟨hsuccess, -⟩ := solve_throw (replay twoStepScript) identityResidual (.scalar 0) ⟨2, true, {}⟩
  obtain ⟨-, hfails, -⟩ :=
    solve_throw (replay twoStepScript) identityResidual (.scalar 0) ⟨1, true, {}⟩
  obtain ⟨-, -, herrs, -⟩ :=
    solve_throw (replay failingScript) identityResidual (.scalar 0) ⟨2, true, {}⟩
  refine ⟨?_, ?_, ?_⟩
  · exact (hsuccess 2 ⟨.scalar 2, 2, some (), 2⟩
      (.stopped (Nat.le_refl 2) ⟨rfl, rfl, twoStepScript_goesOn⟩)).1
  · obtain ⟨hanswer, hthrown⟩ := hfails 1 ⟨.scalar 1, 1, some (), 1⟩ .maxStepsReached
      (.spent ⟨rfl, fun j hj => twoStepScript_goesOn j (Nat.lt_succ_of_le hj)⟩) (by decide)
    exact ⟨hanswer () rfl, hthrown⟩
  · obtain ⟨failure, hreturned, hthrown, herror, hcount, hvalue, hstatus⟩ := herrs 1
      ⟨.scalar 1, 1, some (), 1⟩ .missingVector (by decide) ⟨rfl, rfl, failingScript_goesOn⟩
    exact ⟨failure, hreturned, hthrown, herror, hcount, hvalue, hstatus trivial⟩

end IterativeSolver

end LeastSquares
