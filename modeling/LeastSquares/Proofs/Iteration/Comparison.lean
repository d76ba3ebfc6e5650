import LeastSquares.Proofs.Iteration.Trajectory

/-!
# Runs under two stopping tests

Two solvers with the same start and the same step visit the same iterates, whatever their tests say;
the tests only tell how far along them a run goes. Suppose now that one of the tests differs from the
other only by stopping in success where the other goes on. As long as the two agree the runs are one
run, and where they disagree for the first time the looser run is over, with success, while the
tighter run has this iterate still before it. Nothing is said of what becomes of the tighter run: it
may converge later, run out of its budget, err or fault.
-/

namespace LeastSquares

variable {κ α Aux State β : Type}

/-- The number of steps that an answer or a failure counts; a fault counts none. -/
def stepsTaken? (count : β → Nat) : Outcome (SolveFailure κ α) β → Option Nat
  | .ok b => some (count b)
  | .error (.reported failure) => some failure.numSteps
  | .error (.broken _) => none

/-- A run that ends with a successful answer. -/
def EndsSuccessfully (run : Outcome (SolveFailure κ α) (Solution κ α Aux State)) : Prop :=
  ∃ solution, run = .ok solution ∧ solution.status = .successful

namespace IterativeSolver

/-- The two solvers differ only where the looser one stops in success and the tighter one goes on,
which does not happen before the first step. -/
structure IsLooser (loose tight : IterativeSolver κ α Aux State) : Prop where
  start : loose.start = tight.start
  step : loose.step = tight.step
  stop : ∀ residual tags y state,
    loose.stop residual tags y state = tight.stop residual tags y state ∨
      loose.stop residual tags y state = .ok (true, .successful) ∧
        tight.stop residual tags y state = .ok (false, .successful)
  stop_start : ∀ residual tags y state, tight.start residual tags y = .ok state →
    loose.stop residual tags y state = tight.stop residual tags y state

variable {loose tight solver : IterativeSolver κ α Aux State} {residual : Residual κ α Aux}
  {tags : Tags} {y : Tree κ α}

section Steps

/-- A step answers the next iterate, or fails at the present one, or faults. -/
theorem advance_cases (solver : IterativeSolver κ α Aux State) (residual : Residual κ α Aux)
    (tags : Tags) (it : Iterate κ α Aux State) :
    (∃ point state aux, solver.advance residual tags it =
        .ok ⟨point, state, some aux, it.numSteps + 1⟩) ∨
      (∃ error, solver.advance residual tags it =
        Outcome.report ⟨error, it.point, it.numSteps⟩) ∨
      ∃ fault, solver.advance residual tags it = .error (.broken fault) := by
  unfold advance
  split
  · exact .inl ⟨_, _, _, rfl⟩
  · exact .inr (.inr ⟨_, rfl⟩)
  · exact .inr (.inl ⟨_, rfl⟩)

/-- The count of steps never falls along a run. -/
theorem numSteps_le_of_iterate {budget n : Nat} {it : Iterate κ α Aux State}
    (h : n ∈ stepsTaken? (fun last => last.1.numSteps) (solver.iterate residual tags budget it)) :
    it.numSteps ≤ n := by
  induction budget generalizing it with
  | zero =>
      cases hstop : solver.stop residual tags it.point it.state with
      | error fault =>
          rw [iterate_of_stop_fault 0 hstop] at h
          cases h
      | ok verdict =>
          simp only [iterate, hstop] at h
          exact Nat.le_of_eq (Option.some.inj h)
  | succ budget ih =>
      rcases hstop : solver.stop residual tags it.point it.state with fault | ⟨_ | _, status⟩
      case error =>
          rw [iterate_of_stop_fault _ hstop] at h
          cases h
      case ok.true =>
          rw [iterate_of_stop _ hstop] at h
          exact Nat.le_of_eq (Option.some.inj h)
      case ok.false =>
          rw [iterate_succ_of_goesOn budget hstop] at h
          rcases advance_cases solver residual tags it with
            ⟨point, state, aux, hadvance⟩ | ⟨error, hadvance⟩ | ⟨fault, hadvance⟩
          · rw [hadvance] at h
            exact Nat.le_of_succ_le (ih h)
          · rw [hadvance] at h
            exact Nat.le_of_eq (Option.some.inj h)
          · rw [hadvance] at h
            cases h

/-- An answer or a failure at the last iterate counts the steps to it. -/
theorem stepsTaken?_of_conclude {throwing : Bool} {n : Nat}
    {run : Outcome (SolveFailure κ α) (Iterate κ α Aux State × Status)}
    (h : n ∈ stepsTaken? Solution.numSteps
      (run >>= fun last => conclude residual throwing last.1 last.2)) :
    n ∈ stepsTaken? (fun last => last.1.numSteps) run := by
  match run with
  | .error (.broken fault) => cases h
  | .error (.reported failure) => exact h
  | .ok (it, status) =>
      rw [Outcome.ok_bind] at h
      unfold conclude at h
      split at h
      · exact h
      · cases haux : it.aux with
        | some aux =>
            simp only [haux] at h
            exact h
        | none =>
            cases hasked : residual.auxAt it.point with
            | error fault =>
                simp only [haux, hasked] at h
                cases h
            | ok aux =>
                simp only [haux, hasked] at h
                exact h

/-- A successful end after a step is answered. -/
theorem conclude_of_successful {it : Iterate κ α Aux State} {aux : Aux} (throwing : Bool)
    (haux : it.aux = some aux) :
    conclude residual throwing it .successful =
      .ok ⟨it.point, .successful, aux, it.numSteps, it.state⟩ := by
  have hthrows : (throwing && !Status.successful.isSuccessful) = false := Bool.and_false _
  simp [conclude, haux, hthrows]

end Steps

/-- Where the tests differ after a step, the run under the looser one is over. -/
theorem ends_of_differ {it : Iterate κ α Aux State}
    (hagree : it.aux = none → loose.stop residual tags it.point it.state =
      tight.stop residual tags it.point it.state)
    (hdiffer : loose.stop residual tags it.point it.state = .ok (true, .successful) ∧
      tight.stop residual tags it.point it.state = .ok (false, .successful)) (budget : Nat) :
    ∃ last aux, loose.iterate residual tags budget it = .ok (last, .successful) ∧
      last.aux = some aux ∧
      ∀ n ∈ stepsTaken? (fun last => last.1.numSteps) (tight.iterate residual tags budget it),
        last.numSteps ≤ n := by
  cases haux : it.aux with
  | none =>
      have hequal := hagree haux
      rw [hdiffer.1, hdiffer.2] at hequal
      cases hequal
  | some aux =>
      exact ⟨it, aux, iterate_of_stop budget hdiffer.1, haux, fun n => numSteps_le_of_iterate⟩

namespace IsLooser

variable (h : IsLooser loose tight)

include h

theorem advance (it : Iterate κ α Aux State) :
    loose.advance residual tags it = tight.advance residual tags it := by
  rw [IterativeSolver.advance, IterativeSolver.advance, h.step]

/-- The iterates do not depend on the test. -/
theorem iterateAt (k : Nat) :
    loose.iterateAt residual tags y k = tight.iterateAt residual tags y k := by
  induction k with
  | zero => simp only [IterativeSolver.iterateAt, h.start]
  | succ k ih =>
      rw [iterateAt_succ_eq_bind, iterateAt_succ_eq_bind, ih]
      exact congrArg _ (funext h.advance)

/-- Where the looser test says to go on, so does the tighter one. -/
theorem goesOnAt {k : Nat} (hgo : loose.GoesOnAt residual tags y k) :
    tight.GoesOnAt residual tags y k := by
  obtain ⟨it, status, hit, hstop⟩ := hgo
  refine ⟨it, status, (h.iterateAt k).symm.trans hit, ?_⟩
  rcases h.stop residual tags it.point it.state with hequal | ⟨hstops, -⟩
  · rw [← hequal, hstop]
  · rw [hstops] at hstop
    cases hstop

/-- From an iterate on the runs are one run, or the looser one ends in success after a step, and has
then made no more steps than the tighter one will have. -/
theorem iterate (budget : Nat) {it : Iterate κ α Aux State}
    (hagree : it.aux = none → loose.stop residual tags it.point it.state =
      tight.stop residual tags it.point it.state) :
    loose.iterate residual tags budget it = tight.iterate residual tags budget it ∨
      ∃ last aux, loose.iterate residual tags budget it = .ok (last, .successful) ∧
        last.aux = some aux ∧
        ∀ n ∈ stepsTaken? (fun last => last.1.numSteps) (tight.iterate residual tags budget it),
          last.numSteps ≤ n := by
  induction budget generalizing it with
  | zero =>
      rcases h.stop residual tags it.point it.state with hequal | hdiffer
      · exact .inl (by simp only [IterativeSolver.iterate, hequal])
      · exact .inr (ends_of_differ hagree hdiffer 0)
  | succ budget ih =>
      rcases h.stop residual tags it.point it.state with hequal | hdiffer
      · rcases hstop : tight.stop residual tags it.point it.state with fault | ⟨_ | _, status⟩
        case error =>
            rw [iterate_of_stop_fault _ hstop, iterate_of_stop_fault _ (hequal.trans hstop)]
            exact .inl rfl
        case ok.true =>
            rw [iterate_of_stop _ hstop, iterate_of_stop _ (hequal.trans hstop)]
            exact .inl rfl
        case ok.false =>
            rw [iterate_succ_of_goesOn _ hstop, iterate_succ_of_goesOn _ (hequal.trans hstop),
              h.advance]
            rcases advance_cases tight residual tags it with
              ⟨point, state, aux, hadvance⟩ | ⟨error, hadvance⟩ | ⟨fault, hadvance⟩
            · rw [hadvance]
              exact ih fun hnone => (Option.some_ne_none _ hnone).elim
            · exact .inl (by rw [hadvance]; rfl)
            · exact .inl (by rw [hadvance]; rfl)
      · exact .inr (ends_of_differ hagree hdiffer _)

/-- The runs are one run, or the looser one ends in success with no more steps. -/
theorem solve (residual : Residual κ α Aux) (y : Tree κ α) (config : Config) :
    loose.solve residual y config = tight.solve residual y config ∨
      ∃ solution, loose.solve residual y config = .ok solution ∧ solution.status = .successful ∧
        ∀ n ∈ stepsTaken? Solution.numSteps (tight.solve residual y config),
          solution.numSteps ≤ n := by
  unfold IterativeSolver.solve
  rw [h.start]
  cases hstart : tight.start residual config.tags y with
  | error fault => exact .inl rfl
  | ok state =>
      simp only [Outcome.liftM_eq_toOutcome, Checked.toOutcome_ok, Outcome.ok_bind]
      have hfirst := h.stop_start residual config.tags y state hstart
      have hruns := @iterate _ _ _ _ _ _ residual config.tags h config.maxSteps
        ⟨y, state, none, 0⟩ fun _ => hfirst
      rcases hruns with hequal | ⟨last, aux, hlast, haux, hcount⟩
      · exact .inl (by rw [hequal])
      · refine .inr ⟨_, (by rw [hlast]; exact conclude_of_successful config.throw haux), rfl, ?_⟩
        intro n hn
        exact hcount n (stepsTaken?_of_conclude hn)

/-- **A looser test ends a run sooner.** -/
theorem compare (residual : Residual κ α Aux) (y : Tree κ α) (config : Config) :
    (∀ n' ∈ stepsTaken? Solution.numSteps (tight.solve residual y config),
        ∃ n ∈ stepsTaken? Solution.numSteps (loose.solve residual y config), n ≤ n') ∧
      (EndsSuccessfully (tight.solve residual y config) →
        EndsSuccessfully (loose.solve residual y config)) ∧
      (¬EndsSuccessfully (loose.solve residual y config) →
        loose.solve residual y config = tight.solve residual y config) := by
  rcases h.solve residual y config with hequal | ⟨solution, hsolution, hstatus, hcount⟩
  · rw [hequal]
    exact ⟨fun n hn => ⟨n, hn, Nat.le_refl n⟩, id, fun _ => rfl⟩
  · have hends : EndsSuccessfully (loose.solve residual y config) := ⟨solution, hsolution, hstatus⟩
    refine ⟨fun n hn => ⟨solution.numSteps, ?_, hcount n hn⟩, fun _ => hends, fun h => (h hends).elim⟩
    rw [hsolution]
    rfl

end IsLooser

end IterativeSolver

end LeastSquares
