import LeastSquares.LineSearch.Backtracking
import LeastSquares.LineSearch.FixedStep
import LeastSquares.Proofs.Outcome

/-!
# The first trial of a search

Both line searches of this library begin with one call of the descent. If the descent reports an error
or faults, so does the search; if it fails, the search stays; and if it succeeds, the fixed step goes
to the trial point, and backtracking does so when the trial is enough. A later trial of backtracking is
made in the same way, and the count of trials tells which of them was accepted.
-/

namespace LeastSquares

variable {κ α Aux : Type} [Scalar α] {objective : Tree κ α → Checked (α × Aux)}
  {descent : Descent κ α} {y value : Tree κ α} {options : LineSearchOptions κ α Aux}
  {diff : Tree κ α} {status : Status} {f : α} {aux : Aux} {predicted : Option α}
  {failure : Failure Error}

namespace Backtracking

variable {search : Backtracking α}

/-- A trial with a finite objective ends the search if it is enough, and is kept for the end if not. -/
theorem trials_succ {stepSize : α}
    (hcompute : descent.compute stepSize options.descentOptions = .ok ⟨diff, .successful⟩)
    (hadd : y.add diff = .ok value) (hobjective : objective value = .ok (f, aux))
    (hfinite : Scalar.isFinite f = true) (hchange : options.predictedChange diff = .ok predicted)
    (remaining trial : Nat) (best : Option (Trial κ α Aux)) :
    search.trials objective descent y options (remaining + 1) trial stepSize best =
      if search.sufficient options.objective predicted f = true then
        .ok ⟨value, .successful, ⟨search.nextInit trial stepSize, trial + 1⟩, aux⟩
      else
        search.trials objective descent y options remaining (trial + 1)
          (stepSize * search.decreaseFactor)
          (some (better best ⟨value, f, aux, stepSize⟩)) := by
  have hsuccess : Status.successful.isSuccessful = true := rfl
  simp only [trials, hcompute, hsuccess, hadd, hobjective, hfinite, hchange, Outcome.ok_bind,
    Outcome.liftM_eq_toOutcome, Checked.toOutcome_ok, Outcome.pure_eq_ok, if_true]

/-- A search that succeeds does so at one of the trials that were left. The induction is on these. -/
theorem lt_numSteps_of_trials (remaining : Nat) :
    ∀ (trial : Nat) (stepSize : α) (best : Option (Trial κ α Aux))
      (found : LineSearchSolution κ α Aux),
      search.trials objective descent y options remaining trial stepSize best = .ok found →
      found.status = .successful → trial < found.state.numSteps := by
  induction remaining with
  | zero =>
      intro trial stepSize best found hfound hstatus
      cases hfound
      cases best with
      | none => cases hstatus
      | some earlier => cases hstatus
  | succ remaining ih =>
      intro trial stepSize best found hfound hstatus
      obtain ⟨step, -, hrest⟩ := Outcome.bind_eq_ok.mp hfound
      split at hrest
      · obtain ⟨value, -, hrest⟩ := Outcome.bind_eq_ok.mp hrest
        obtain ⟨⟨f, aux⟩, -, hrest⟩ := Outcome.bind_eq_ok.mp hrest
        dsimp only at hrest
        split at hrest
        · obtain ⟨predicted, -, hrest⟩ := Outcome.bind_eq_ok.mp hrest
          split at hrest
          · cases hrest
            exact Nat.lt_succ_self trial
          · exact Nat.lt_of_succ_lt (ih _ _ _ found hrest hstatus)
        · exact Nat.lt_of_succ_lt (ih _ _ _ found hrest hstatus)
      · rename_i hfails
        cases hrest
        exact absurd ((Status.isSuccessful_iff _).mpr hstatus) hfails

/-- The trial with a number and a step size, if it is made, ends the search with success. -/
def AcceptsTrial (search : Backtracking α) (objective : Tree κ α → Checked (α × Aux))
    (descent : Descent κ α) (y : Tree κ α) (options : LineSearchOptions κ α Aux)
    (remaining trial : Nat) (stepSize : α) (best : Option (Trial κ α Aux)) : Prop :=
  ∃ found, search.trials objective descent y options (remaining + 1) trial stepSize best =
      .ok found ∧ found.status = .successful ∧ found.state.numSteps = trial + 1

/-- A trial with a finite objective is accepted exactly if it is enough, since a later trial leaves a
larger count. -/
theorem acceptsTrial_iff {stepSize : α}
    (hcompute : descent.compute stepSize options.descentOptions = .ok ⟨diff, .successful⟩)
    (hadd : y.add diff = .ok value) (hobjective : objective value = .ok (f, aux))
    (hfinite : Scalar.isFinite f = true) (hchange : options.predictedChange diff = .ok predicted)
    (remaining trial : Nat) (best : Option (Trial κ α Aux)) :
    search.AcceptsTrial objective descent y options remaining trial stepSize best ↔
      search.sufficient options.objective predicted f = true := by
  unfold AcceptsTrial
  rw [trials_succ hcompute hadd hobjective hfinite hchange]
  by_cases hsufficient : search.sufficient options.objective predicted f = true
  · rw [if_pos hsufficient]
    exact ⟨fun _ => hsufficient, fun _ => ⟨_, rfl, rfl, rfl⟩⟩
  · rw [if_neg hsufficient]
    refine ⟨?_, fun h => absurd h hsufficient⟩
    rintro ⟨found, hfound, hstatus, hcount⟩
    have hlater := lt_numSteps_of_trials remaining _ _ _ found hfound hstatus
    omega

section Attempt

variable (hsteps : 0 < search.maxSteps) (hpresent : Scalar.isFinite options.objective = true)

include hsteps hpresent

/-- A search from a finite objective begins with a trial at the step size that it was told. -/
theorem exists_attempt_eq : ∃ remaining, search.attempt objective descent y options =
    search.trials objective descent y options (remaining + 1) 0 options.initStepSize none := by
  obtain ⟨remaining, hremaining⟩ := Nat.exists_eq_add_one.mpr hsteps
  refine ⟨remaining, ?_⟩
  unfold attempt
  rw [if_pos hpresent, hremaining]

/-- A first trial that is enough is where the search ends. -/
theorem attempt_of_sufficient
    (hcompute : descent.compute options.initStepSize options.descentOptions =
      .ok ⟨diff, .successful⟩)
    (hadd : y.add diff = .ok value) (hobjective : objective value = .ok (f, aux))
    (hfinite : Scalar.isFinite f = true) (hchange : options.predictedChange diff = .ok predicted)
    (hsufficient : search.sufficient options.objective predicted f = true) :
    search.attempt objective descent y options =
      .ok ⟨value, .successful, ⟨search.nextInit 0 options.initStepSize, 1⟩, aux⟩ := by
  obtain ⟨remaining, hattempt⟩ := exists_attempt_eq hsteps hpresent
  rw [hattempt, trials_succ hcompute hadd hobjective hfinite hchange, if_pos hsufficient]

/-- A descent that fails at once leaves the search where it began. -/
theorem attempt_of_refused
    (hcompute : descent.compute options.initStepSize options.descentOptions = .ok ⟨diff, status⟩)
    (hfails : status ≠ .successful) :
    search.attempt objective descent y options = .ok (.stay y options status 1) := by
  obtain ⟨remaining, hattempt⟩ := exists_attempt_eq hsteps hpresent
  rw [hattempt, trials, hcompute, Outcome.ok_bind, Status.isSuccessful_eq_false hfails]
  rfl

theorem attempt_of_failure
    (hcompute : descent.compute options.initStepSize options.descentOptions = .error failure) :
    search.attempt objective descent y options = .error failure := by
  obtain ⟨remaining, hattempt⟩ := exists_attempt_eq hsteps hpresent
  rw [hattempt, trials, hcompute]
  rfl

end Attempt

end Backtracking

namespace FixedStep

variable {search : FixedStep α}

/-- A fixed step goes where a descent that succeeds leads. -/
theorem attempt_of_successful
    (hcompute : descent.compute search.size options.descentOptions = .ok ⟨diff, .successful⟩)
    (hadd : y.add diff = .ok value) (hobjective : objective value = .ok (f, aux)) :
    search.attempt objective descent y options =
      .ok ⟨value, .successful, ⟨search.size, 1⟩, aux⟩ := by
  have hsuccess : Status.successful.isSuccessful = true := rfl
  simp only [attempt, hcompute, hsuccess, hadd, hobjective, Outcome.ok_bind,
    Outcome.liftM_eq_toOutcome, Checked.toOutcome_ok, Outcome.pure_eq_ok, if_true]

theorem attempt_of_refused
    (hcompute : descent.compute search.size options.descentOptions = .ok ⟨diff, status⟩)
    (hfails : status ≠ .successful) :
    search.attempt objective descent y options = .ok (.stay y options status 1) := by
  rw [attempt, hcompute, Outcome.ok_bind, Status.isSuccessful_eq_false hfails]
  rfl

theorem attempt_of_failure
    (hcompute : descent.compute search.size options.descentOptions = .error failure) :
    search.attempt objective descent y options = .error failure := by
  rw [attempt, hcompute]
  rfl

end FixedStep

end LeastSquares
