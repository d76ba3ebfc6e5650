import LeastSquares.Iteration.Replay
import LeastSquares.Proofs.Iteration.Trajectory

/-!
# The three ends of a solve

A solve that throws nothing ends in one of three ways, and the trajectory of the solver tells which.
The test says stop after `k` steps, within the budget and before any step errs: then the answer is the
iterate there with the status of the test, also when `k` is the whole budget. Or the step from the
iterate after `k` steps errs first, with budget left: then the answer is a failure with that error and
that iterate. Or the test says to go on up to the end of the budget, and the budget is spent.

Nothing is assumed of the solver. A call that faults makes the solve fault, and this is the only
other way to end (`solve_exits`).
-/

namespace LeastSquares

/-- The auxiliary output that goes with an iterate: the one of its step, or before the first step the
one of the residual at the starting point. -/
def Iterate.lastAux {κ α Aux State : Type} (it : Iterate κ α Aux State)
    (residual : Residual κ α Aux) : Checked Aux :=
  match it.aux with
  | some aux => .ok aux
  | none => residual.auxAt it.point

/-! ### How a run ends -/

namespace IterativeSolver

variable {κ α Aux State : Type} (solver : IterativeSolver κ α Aux State)
  (residual : Residual κ α Aux) (tags : Tags) (y : Tree κ α)

/-- After `k` steps, and not before, the test says stop. -/
structure StopsFirstAt (k : Nat) (it : Iterate κ α Aux State) (status : Status) : Prop where
  reached : solver.iterateAt residual tags y k = .ok it
  stops : solver.stop residual tags it.point it.state = .ok (true, status)
  before : ∀ j < k, solver.GoesOnAt residual tags y j

/-- The first step that errs is the one after `k` steps, and the test does not say stop up to there. -/
structure ErrsFirstAt (k : Nat) (it : Iterate κ α Aux State) (error : Error) : Prop where
  reached : solver.iterateAt residual tags y k = .ok it
  errs : solver.step residual tags it.point it.state = .error (.reported error)
  before : ∀ j ≤ k, solver.GoesOnAt residual tags y j

/-- The test says to go on after every number of steps up to a budget. -/
structure RunsOut (maxSteps : Nat) (it : Iterate κ α Aux State) : Prop where
  reached : solver.iterateAt residual tags y maxSteps = .ok it
  before : ∀ j ≤ maxSteps, solver.GoesOnAt residual tags y j

/-- A run with a budget ends after `k` steps: the test says stop, or it says to go on and the budget is
spent. -/
inductive RunEnds (maxSteps : Nat) : Nat → Iterate κ α Aux State → Status → Prop
  | stopped {k : Nat} {it : Iterate κ α Aux State} {status : Status} (hk : k ≤ maxSteps)
      (h : solver.StopsFirstAt residual tags y k it status) : RunEnds maxSteps k it status
  | spent {it : Iterate κ α Aux State} (h : solver.RunsOut residual tags y maxSteps it) :
      RunEnds maxSteps maxSteps it .maxStepsReached

/-- A call that a solve with a budget can make faults. -/
inductive CallFaults (maxSteps : Nat) (fault : Fault) : Prop
  | start (h : solver.start residual tags y = .error fault)
  | stop (k : Nat) (it : Iterate κ α Aux State) (hk : k ≤ maxSteps)
      (hit : solver.iterateAt residual tags y k = .ok it)
      (before : ∀ j < k, solver.GoesOnAt residual tags y j)
      (h : solver.stop residual tags it.point it.state = .error fault)
  | step (k : Nat) (it : Iterate κ α Aux State) (hk : k < maxSteps)
      (hit : solver.iterateAt residual tags y k = .ok it)
      (before : ∀ j ≤ k, solver.GoesOnAt residual tags y j)
      (h : solver.step residual tags it.point it.state = .error (.broken fault))
  | value (h : residual.auxAt y = .error fault)

/-- The ends of the driver, which does not know whether failing statuses are thrown. -/
inductive DriverEnds (maxSteps : Nat) :
    Outcome (SolveFailure κ α) (Iterate κ α Aux State × Status) → Prop
  | ended (k : Nat) (it : Iterate κ α Aux State) (status : Status)
      (h : solver.RunEnds residual tags y maxSteps k it status) : DriverEnds maxSteps (.ok (it, status))
  | erred (k : Nat) (it : Iterate κ α Aux State) (error : Error) (hk : k < maxSteps)
      (h : solver.ErrsFirstAt residual tags y k it error) :
      DriverEnds maxSteps (Outcome.report ⟨error, it.point, k⟩)
  | faulted (fault : Fault) (h : solver.CallFaults residual tags y maxSteps fault) :
      DriverEnds maxSteps (.error (.broken fault))

/-- The ends of a solve that throws nothing, each with its answer. -/
inductive EndsWith (maxSteps : Nat) :
    Outcome (SolveFailure κ α) (Solution κ α Aux State) → Prop
  | stopped (k : Nat) (it : Iterate κ α Aux State) (status : Status) (aux : Aux)
      (hk : k ≤ maxSteps) (h : solver.StopsFirstAt residual tags y k it status)
      (haux : it.lastAux residual = .ok aux) :
      EndsWith maxSteps (.ok ⟨it.point, status, aux, k, it.state⟩)
  | erred (k : Nat) (it : Iterate κ α Aux State) (error : Error)
      (hk : k < maxSteps) (h : solver.ErrsFirstAt residual tags y k it error) :
      EndsWith maxSteps (Outcome.report ⟨error, it.point, k⟩)
  | spent (it : Iterate κ α Aux State) (aux : Aux)
      (h : solver.RunsOut residual tags y maxSteps it) (haux : it.lastAux residual = .ok aux) :
      EndsWith maxSteps (.ok ⟨it.point, .maxStepsReached, aux, maxSteps, it.state⟩)
  | faulted (fault : Fault) (h : solver.CallFaults residual tags y maxSteps fault) :
      EndsWith maxSteps (.error (.broken fault))

variable {solver residual tags y}

/-! ### From an end to the answer -/

/-- A failing status that is not thrown is part of the answer. -/
theorem conclude_unthrown (it : Iterate κ α Aux State) (status : Status) :
    conclude residual false it status =
      (do
        let aux ← Checked.toOutcome (it.lastAux residual)
        return ⟨it.point, status, aux, it.numSteps, it.state⟩) := by
  unfold conclude Iterate.lastAux
  cases it.aux <;> simp

/-- Before the first step the auxiliary output is asked of the residual. -/
theorem lastAux_zero {it : Iterate κ α Aux State}
    (hit : solver.iterateAt residual tags y 0 = .ok it) :
    it.lastAux residual = residual.auxAt y := by
  obtain ⟨state, -, rfl⟩ := iterateAt_zero_eq_ok.mp hit
  rfl

/-- A step leaves an auxiliary output. -/
theorem lastAux_succ {k : Nat} {it : Iterate κ α Aux State}
    (hit : solver.iterateAt residual tags y (k + 1) = .ok it) :
    ∃ aux, it.lastAux residual = .ok aux := by
  obtain ⟨before, -, hstep⟩ := iterateAt_succ_eq_ok.mp hit
  obtain ⟨point, state, aux, -, rfl⟩ := advance_eq_ok.mp hstep
  exact ⟨aux, rfl⟩

/-- Only a solve without steps asks the residual for the auxiliary output. -/
theorem callFaults_of_lastAux {maxSteps k : Nat} {it : Iterate κ α Aux State} {fault : Fault}
    (hit : solver.iterateAt residual tags y k = .ok it)
    (h : it.lastAux residual = .error fault) :
    solver.CallFaults residual tags y maxSteps fault := by
  cases k with
  | zero => exact .value ((lastAux_zero hit).symm.trans h)
  | succ k =>
      obtain ⟨aux, haux⟩ := lastAux_succ hit
      cases h.symm.trans haux

theorem RunEnds.reached {maxSteps k : Nat} {it : Iterate κ α Aux State} {status : Status}
    (h : solver.RunEnds residual tags y maxSteps k it status) :
    solver.iterateAt residual tags y k = .ok it := by
  cases h with
  | stopped hk h => exact h.reached
  | spent h => exact h.reached

/-- Where a run ends is where a solve concludes, whether or not failing statuses are thrown. -/
theorem RunEnds.solve {maxSteps k : Nat} {it : Iterate κ α Aux State} {status : Status}
    (h : solver.RunEnds residual tags y maxSteps k it status) (throwing : Bool) :
    solver.solve residual y ⟨maxSteps, throwing, tags⟩ = conclude residual throwing it status := by
  cases h with
  | stopped hk h =>
      rw [solve_eq_of_goesOn hk h.reached h.before, iterate_of_stop _ h.stops, Outcome.ok_bind]
  | spent h =>
      obtain ⟨it', status, hit', hgoes⟩ := h.before maxSteps (Nat.le_refl maxSteps)
      obtain rfl : it' = it := Except.ok.inj (hit'.symm.trans h.reached)
      rw [solve_eq_of_goesOn (Nat.le_refl maxSteps) h.reached
          fun j hj => h.before j (Nat.le_of_lt hj),
        Nat.sub_self, iterate_zero_of_goesOn hgoes, Outcome.ok_bind]

/-- A run that ends is answered with its status, if that is not thrown. -/
theorem RunEnds.solve_unthrown {maxSteps k : Nat} {it : Iterate κ α Aux State} {status : Status}
    (h : solver.RunEnds residual tags y maxSteps k it status) :
    solver.solve residual y ⟨maxSteps, false, tags⟩ =
      (do
        let aux ← Checked.toOutcome (it.lastAux residual)
        return ⟨it.point, status, aux, k, it.state⟩) := by
  rw [h.solve, conclude_unthrown, numSteps_of_iterateAt h.reached]

theorem StopsFirstAt.solve {maxSteps k : Nat} {it : Iterate κ α Aux State} {status : Status}
    (h : solver.StopsFirstAt residual tags y k it status) (hk : k ≤ maxSteps) :
    solver.solve residual y ⟨maxSteps, false, tags⟩ =
      (do
        let aux ← Checked.toOutcome (it.lastAux residual)
        return ⟨it.point, status, aux, k, it.state⟩) :=
  (RunEnds.stopped hk h).solve_unthrown

theorem RunsOut.solve {maxSteps : Nat} {it : Iterate κ α Aux State}
    (h : solver.RunsOut residual tags y maxSteps it) :
    solver.solve residual y ⟨maxSteps, false, tags⟩ =
      (do
        let aux ← Checked.toOutcome (it.lastAux residual)
        return ⟨it.point, .maxStepsReached, aux, maxSteps, it.state⟩) :=
  (RunEnds.spent h).solve_unthrown

/-- A stop with success is an answer whether or not failing statuses are thrown. -/
theorem StopsFirstAt.solve_successful {maxSteps k : Nat} {throwing : Bool}
    {it : Iterate κ α Aux State} {aux : Aux}
    (h : solver.StopsFirstAt residual tags y k it .successful) (hk : k ≤ maxSteps)
    (haux : it.aux = some aux) :
    solver.solve residual y ⟨maxSteps, throwing, tags⟩ =
      .ok ⟨it.point, .successful, aux, k, it.state⟩ := by
  have hsuccess : Status.successful.isSuccessful = true := rfl
  rw [(RunEnds.stopped hk h).solve]
  simp [conclude, haux, hsuccess, numSteps_of_iterateAt h.reached]

/-- The error of a step is passed on, whether or not failing statuses are thrown. -/
theorem ErrsFirstAt.solve {maxSteps k : Nat} {throwing : Bool} {it : Iterate κ α Aux State}
    {error : Error} (h : solver.ErrsFirstAt residual tags y k it error) (hk : k < maxSteps) :
    solver.solve residual y ⟨maxSteps, throwing, tags⟩ = Outcome.report ⟨error, it.point, k⟩ := by
  obtain ⟨it', status, hit', hgoes⟩ := h.before k (Nat.le_refl k)
  obtain rfl : it' = it := Except.ok.inj (hit'.symm.trans h.reached)
  have hfails : solver.advance residual tags it' = Outcome.report ⟨error, it'.point, k⟩ := by
    simp [advance, h.errs, numSteps_of_iterateAt hit']
  rw [solve_eq_of_goesOn (Nat.le_of_lt hk) h.reached fun j hj => h.before j (Nat.le_of_lt hj),
    show maxSteps - k = maxSteps - (k + 1) + 1 by omega, iterate_succ_of_goesOn _ hgoes, hfails]
  rfl

/-- An answer that waits for the auxiliary output ends with it, or with the fault of the residual. -/
theorem endsWith_of_lastAux {maxSteps k : Nat} {it : Iterate κ α Aux State}
    {answer : Aux → Solution κ α Aux State}
    (hit : solver.iterateAt residual tags y k = .ok it)
    (h : ∀ aux, it.lastAux residual = .ok aux →
      solver.EndsWith residual tags y maxSteps (.ok (answer aux))) :
    solver.EndsWith residual tags y maxSteps
      (do
        let aux ← Checked.toOutcome (it.lastAux residual)
        return answer aux) := by
  cases haux : it.lastAux residual with
  | ok aux => exact h aux haux
  | error fault => exact .faulted fault (callFaults_of_lastAux hit haux)

theorem goesOn_of_le {k : Nat} (hgo : ∀ j < k, solver.GoesOnAt residual tags y j)
    (hk : solver.GoesOnAt residual tags y k) : ∀ j ≤ k, solver.GoesOnAt residual tags y j := by
  intro j hj
  rcases Nat.lt_or_eq_of_le hj with hlt | rfl
  · exact hgo j hlt
  · exact hk

/-- From an iterate up to which the test says to go on, the driver ends in one of the listed ways. The
induction is on what is left of the budget, as in the driver. -/
theorem iterate_ends {maxSteps : Nat} (budget : Nat) :
    ∀ (k : Nat) (it : Iterate κ α Aux State), k + budget = maxSteps →
      solver.iterateAt residual tags y k = .ok it →
      (∀ j < k, solver.GoesOnAt residual tags y j) →
      solver.DriverEnds residual tags y maxSteps (solver.iterate residual tags budget it) := by
  induction budget with
  | zero =>
      intro k it hk hit hgo
      obtain rfl : k = maxSteps := hk
      match hstop : solver.stop residual tags it.point it.state with
      | .ok (true, status) =>
          rw [iterate_of_stop 0 hstop]
          exact .ended k it status (.stopped (Nat.le_refl k) ⟨hit, hstop, hgo⟩)
      | .ok (false, status) =>
          rw [iterate_zero_of_goesOn hstop]
          exact .ended k it _ (.spent ⟨hit, goesOn_of_le hgo ⟨it, status, hit, hstop⟩⟩)
      | .error fault =>
          rw [iterate_of_stop_fault 0 hstop]
          exact .faulted fault (.stop k it (Nat.le_refl k) hit hgo hstop)
  | succ budget ih =>
      intro k it hk hit hgo
      have hlt : k < maxSteps := by omega
      match hstop : solver.stop residual tags it.point it.state with
      | .ok (true, status) =>
          rw [iterate_of_stop _ hstop]
          exact .ended k it status (.stopped (Nat.le_of_lt hlt) ⟨hit, hstop, hgo⟩)
      | .error fault =>
          rw [iterate_of_stop_fault _ hstop]
          exact .faulted fault (.stop k it (Nat.le_of_lt hlt) hit hgo hstop)
      | .ok (false, status) =>
          have hgo' := goesOn_of_le hgo ⟨it, status, hit, hstop⟩
          rw [iterate_succ_of_goesOn budget hstop]
          match hstep : solver.step residual tags it.point it.state with
          | .ok (point, state, aux) =>
              have hadvance := advance_eq_ok.mpr ⟨point, state, aux, hstep, rfl⟩
              rw [hadvance, Outcome.ok_bind]
              exact ih (k + 1) _ (by omega) ((iterateAt_succ hit).trans hadvance)
                fun j hj => hgo' j (Nat.le_of_lt_succ hj)
          | .error (.reported error) =>
              have hfails : solver.advance residual tags it = Outcome.report ⟨error, it.point, k⟩ := by
                simp [advance, hstep, numSteps_of_iterateAt hit]
              rw [hfails]
              exact .erred k it error hlt ⟨hit, hstep, hgo'⟩
          | .error (.broken fault) =>
              have hfaults : solver.advance residual tags it = .error (.broken fault) := by
                simp [advance, hstep]
              rw [hfaults]
              exact .faulted fault (.step k it hlt hit hgo' hstep)

/-- From an iterate up to which the test says to go on, a solve ends in one of the listed ways. -/
theorem endsWith_of_goesOn {maxSteps : Nat} (budget : Nat) (k : Nat) (it : Iterate κ α Aux State)
    (hk : k + budget = maxSteps) (hit : solver.iterateAt residual tags y k = .ok it)
    (hgo : ∀ j < k, solver.GoesOnAt residual tags y j) :
    solver.EndsWith residual tags y maxSteps
      (solver.solve residual y ⟨maxSteps, false, tags⟩) := by
  have hends := iterate_ends budget k it hk hit hgo
  have hbudget : maxSteps - k = budget := by omega
  rw [solve_eq_of_goesOn (by omega) hit hgo, hbudget]
  generalize solver.iterate residual tags budget it = last at hends
  cases hends with
  | ended j it' status h =>
      rw [Outcome.ok_bind, conclude_unthrown, numSteps_of_iterateAt h.reached]
      cases h with
      | stopped hj h => exact endsWith_of_lastAux h.reached fun aux => .stopped j it' status aux hj h
      | spent h => exact endsWith_of_lastAux h.reached fun aux => .spent it' aux h
  | erred j it' error hj h => exact .erred j it' error hj h
  | faulted fault h => exact .faulted fault h

/-! ### Every solve has one of the ends -/

/-- **The three ends of a solve.** Convergence after at most `maxSteps` steps is the answer with the
status of the test, an error of a step within the budget is a failure at the last iterate that was
reached, and going on up to the end of the budget is the answer that says so. There is no other end
but the fault of a call. -/
theorem solve_exits (solver : IterativeSolver κ α Aux State) (residual : Residual κ α Aux)
    (tags : Tags) (y : Tree κ α) (maxSteps : Nat) :
    (∀ k it status aux, solver.StopsFirstAt residual tags y k it status → k ≤ maxSteps →
        it.lastAux residual = .ok aux →
        solver.solve residual y ⟨maxSteps, false, tags⟩ =
          .ok ⟨it.point, status, aux, k, it.state⟩) ∧
      (∀ k it error, solver.ErrsFirstAt residual tags y k it error → k < maxSteps →
        solver.solve residual y ⟨maxSteps, false, tags⟩ =
          Outcome.report ⟨error, it.point, k⟩) ∧
      (∀ it aux, solver.RunsOut residual tags y maxSteps it → it.lastAux residual = .ok aux →
        solver.solve residual y ⟨maxSteps, false, tags⟩ =
          .ok ⟨it.point, .maxStepsReached, aux, maxSteps, it.state⟩) ∧
      solver.EndsWith residual tags y maxSteps
        (solver.solve residual y ⟨maxSteps, false, tags⟩) := by
  refine ⟨fun k it status aux h hk haux => ?_, fun k it error h hk => h.solve hk,
    fun it aux h haux => ?_, ?_⟩
  · rw [h.solve hk, haux]
    rfl
  · rw [h.solve, haux]
    rfl
  · cases hstart : solver.start residual tags y with
    | error fault =>
        have hfaults : solver.solve residual y ⟨maxSteps, false, tags⟩ = .error (.broken fault) := by
          simp [solve, hstart]
        rw [hfaults]
        exact .faulted fault (.start hstart)
    | ok state =>
        exact endsWith_of_goesOn maxSteps 0 ⟨y, state, none, 0⟩ (Nat.zero_add maxSteps)
          (iterateAt_zero_eq_ok.mpr ⟨state, hstart, rfl⟩) fun j hj => absurd hj (Nat.not_lt_zero j)

/-- A residual over natural numbers that is the point itself, with nothing beside it. -/
def identityResidual : Residual Unit Nat Unit where
  value t := .ok (t, ())
  tangent _ t := .ok t

/-- Two steps, after which the test says stop. -/
def twoStepScript : List (Cue Unit Nat) :=
  [{ next := some (.ok (.scalar 1)) }, { next := some (.ok (.scalar 2)) },
    { done := true, status := .successful, next := some (.error .missingVector) }]

/-- One step, after which the step errs. -/
def failingScript : List (Cue Unit Nat) :=
  [{ next := some (.ok (.scalar 1)) }, { next := some (.error .missingVector) }]

/-- All three ends: convergence at exactly the last step of the budget, an error of the second step
before it, and a budget that is one step too small. -/
theorem solve_exits_scripts :
    (replay twoStepScript).solve identityResidual (.scalar 0) ⟨2, false, {}⟩ =
        .ok ⟨.scalar 2, .successful, (), 2, 2⟩ ∧
      (replay failingScript).solve identityResidual (.scalar 0) ⟨2, false, {}⟩ =
        Outcome.report ⟨.missingVector, .scalar 1, 1⟩ ∧
      (replay twoStepScript).solve identityResidual (.scalar 0) ⟨1, false, {}⟩ =
        .ok ⟨.scalar 1, .maxStepsReached, (), 1, 1⟩ := by
  have hgo (script : List (Cue Unit Nat)) (it₀ it₁ : Iterate Unit Nat Unit Nat)
      (h₀ : (replay script).iterateAt identityResidual {} (.scalar 0) 0 = .ok it₀)
      (h₁ : (replay script).iterateAt identityResidual {} (.scalar 0) 1 = .ok it₁)
      (hs₀ : (replay script).stop identityResidual {} it₀.point it₀.state =
        .ok (false, .successful))
      (hs₁ : (replay script).stop identityResidual {} it₁.point it₁.state =
        .ok (false, .successful)) (j : Nat) (hj : j ≤ 1) :
      (replay script).GoesOnAt identityResidual {} (.scalar 0) j := by
    rcases Nat.le_one_iff_eq_zero_or_eq_one.mp hj with rfl | rfl
    · exact ⟨it₀, .successful, h₀, hs₀⟩
    · exact ⟨it₁, .successful, h₁, hs₁⟩
  refine ⟨?_, ?_, ?_⟩
  · exact (solve_exits (replay twoStepScript) identityResidual {} (.scalar 0) 2).1 2
      ⟨.scalar 2, 2, some (), 2⟩ .successful ()
      ⟨rfl, rfl, fun j hj => hgo twoStepScript ⟨.scalar 0, 0, none, 0⟩ ⟨.scalar 1, 1, some (), 1⟩
        rfl rfl rfl rfl j (Nat.le_of_lt_succ hj)⟩ (Nat.le_refl 2) rfl
  · exact (solve_exits (replay failingScript) identityResidual {} (.scalar 0) 2).2.1 1
      ⟨.scalar 1, 1, some (), 1⟩ .missingVector
      ⟨rfl, rfl, hgo failingScript ⟨.scalar 0, 0, none, 0⟩ ⟨.scalar 1, 1, some (), 1⟩
        rfl rfl rfl rfl⟩ (by decide)
  · exact (solve_exits (replay twoStepScript) identityResidual {} (.scalar 0) 1).2.2.1
      ⟨.scalar 1, 1, some (), 1⟩ ()
      ⟨rfl, hgo twoStepScript ⟨.scalar 0, 0, none, 0⟩ ⟨.scalar 1, 1, some (), 1⟩
        rfl rfl rfl rfl⟩ rfl

end IterativeSolver

end LeastSquares
