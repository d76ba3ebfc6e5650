import LeastSquares.Proofs.LineSearch.FirstTrial

/-!
# The trials of backtracking as a sequence

The trials that backtracking may come to are settled before it begins: trial `j` has the first step
size, decreased `j` times, and whether it is made and accepted depends on nothing else. The search goes
through this sequence. It passes over a trial that is made and not accepted, keeping the best one so
far, and it ends at a trial that is accepted or that is not made at all (`attempt_eq_trials`,
`trialEnds`).
-/

namespace LeastSquares

variable {κ α Aux : Type} [Scalar α]

namespace Backtracking

section Sequence

variable (search : Backtracking α) (objective : Tree κ α → Checked (α × Aux)) (descent : Descent κ α)
  (y : Tree κ α) (options : LineSearchOptions κ α Aux)

/-- The step size of a trial: a first one, decreased once for each trial before. -/
def stepSizeAt (first : α) : Nat → α
  | 0 => first
  | j + 1 => stepSizeAt first j * search.decreaseFactor

/-- An objective that is low enough after a step. With a residual and its Jacobian the change is
predicted to be twice the product of the residual and the image of the step, with a gradient the product
of the gradient and the step, and the objective has to be at most the present one plus a fraction of
that change. Without a Jacobian it has to be below the present one. -/
inductive LowEnough (diff : Tree κ α) (f : α) : Prop
  | residual (operator : LinearOperator κ α) (image : Tree κ α) (product : α)
      (hmode : options.gaussNewton = true) (hoperator : options.operator = some operator)
      (himage : operator.apply diff = .ok image) (hproduct : options.vector.dot image = .ok product)
      (hle : Scalar.le f (options.objective + search.slope * (Scalar.ofNat 2 * product)) = true)
  | gradient (product : α) (hmode : options.gaussNewton = false)
      (hproduct : options.vector.dot diff = .ok product)
      (hle : Scalar.le f (options.objective + search.slope * product) = true)
  | unpredicted (hmode : options.gaussNewton = true) (hoperator : options.operator = none)
      (hlt : Scalar.lt f options.objective = true)

/-- Trial `j`, with the step that leads to it. -/
structure TrialAt (j : Nat) (diff : Tree κ α) (trial : Trial κ α Aux) : Prop where
  stepSize : trial.stepSize = search.stepSizeAt options.initStepSize j
  compute : descent.compute trial.stepSize options.descentOptions = .ok ⟨diff, .successful⟩
  add : y.add diff = .ok trial.value
  objective : objective trial.value = .ok (trial.objective, trial.aux)

/-- The descent succeeds at the step size of trial `j`. -/
def DescendsAt (j : Nat) : Prop :=
  ∃ diff, descent.compute (search.stepSizeAt options.initStepSize j) options.descentOptions =
    .ok ⟨diff, .successful⟩

/-- Trial `j` is made: the descent succeeds, and no call that the trial makes faults. The change is
predicted only for a finite objective. -/
def MakesAt (j : Nat) (trial : Trial κ α Aux) : Prop :=
  ∃ diff, search.TrialAt objective descent y options j diff trial ∧
    (Scalar.isFinite trial.objective = true →
      ∃ predicted, options.predictedChange diff = .ok predicted)

/-- Trial `j` is acceptable: the descent succeeds, and the objective is finite and low enough. -/
def AcceptsAt (j : Nat) (trial : Trial κ α Aux) : Prop :=
  ∃ diff, search.TrialAt objective descent y options j diff trial ∧
    Scalar.isFinite trial.objective = true ∧ search.LowEnough options diff trial.objective

/-- Trial `j` is passed over: it is made and not acceptable. -/
def PassesAt (j : Nat) (trial : Trial κ α Aux) : Prop :=
  search.MakesAt objective descent y options j trial ∧
    ¬search.AcceptsAt objective descent y options j trial

/-- The best trial so far after one more trial: what is not finite is not kept. -/
def keep (best : Option (Trial κ α Aux)) (trial : Trial κ α Aux) : Option (Trial κ α Aux) :=
  if Scalar.isFinite trial.objective then some (better best trial) else best

/-- The best trial so far, in front of a trial that all earlier trials were passed over for. -/
inductive KeptBefore : Nat → Option (Trial κ α Aux) → Prop
  | zero : KeptBefore 0 none
  | succ {j : Nat} {best : Option (Trial κ α Aux)} {trial : Trial κ α Aux}
      (before : KeptBefore j best) (h : search.PassesAt objective descent y options j trial) :
      KeptBefore (j + 1) (keep best trial)

/-- What becomes of trial `j`. -/
inductive TrialEnds (j : Nat) : Prop
  | accepted (trial : Trial κ α Aux) (h : search.AcceptsAt objective descent y options j trial)
  | passed (trial : Trial κ α Aux) (h : search.PassesAt objective descent y options j trial)
  | refused (step : DescentStep κ α) (hfails : step.status ≠ .successful)
      (h : descent.compute (search.stepSizeAt options.initStepSize j) options.descentOptions =
        .ok step)
  | failed (failure : Failure Error)
      (h : descent.compute (search.stepSizeAt options.initStepSize j) options.descentOptions =
        .error failure)
  | faulted (fault : Fault)
      (h : ∀ remaining best, search.trials objective descent y options (remaining + 1) j
        (search.stepSizeAt options.initStepSize j) best = .error (.broken fault))

end Sequence

section Trial

variable {search : Backtracking α} {objective : Tree κ α → Checked (α × Aux)} {descent : Descent κ α}
  {y diff diff' : Tree κ α} {options : LineSearchOptions κ α Aux} {j : Nat}
  {trial trial' : Trial κ α Aux} {f : α}

/-- Low enough is what the predicted change makes sufficient. -/
theorem lowEnough_iff :
    search.LowEnough options diff f ↔
      ∃ predicted, options.predictedChange diff = .ok predicted ∧
        search.sufficient options.objective predicted f = true := by
  constructor
  · intro h
    cases h with
    | residual operator image product hmode hoperator himage hproduct hle =>
        refine ⟨some (Scalar.ofNat 2 * product), ?_, hle⟩
        simp [LineSearchOptions.predictedChange, hmode, hoperator, himage, hproduct]
    | gradient product hmode hproduct hle =>
        refine ⟨some product, ?_, hle⟩
        rw [Tree.dot] at hproduct
        simp [LineSearchOptions.predictedChange, hmode, hproduct]
    | unpredicted hmode hoperator hlt =>
        refine ⟨none, ?_, hlt⟩
        simp [LineSearchOptions.predictedChange, hmode, hoperator]
  · rintro ⟨predicted, hchange, hsufficient⟩
    unfold LineSearchOptions.predictedChange at hchange
    cases hmode : options.gaussNewton with
    | false =>
        rw [hmode, if_neg Bool.false_ne_true] at hchange
        obtain ⟨product, hproduct, hpredicted⟩ := Outcome.bind_eq_ok.mp hchange
        cases hpredicted
        exact .gradient product hmode hproduct hsufficient
    | true =>
        rw [hmode, if_pos rfl] at hchange
        cases hoperator : options.operator with
        | none =>
            rw [hoperator] at hchange
            cases hchange
            exact .unpredicted hmode hoperator hsufficient
        | some operator =>
            rw [hoperator] at hchange
            obtain ⟨image, himage, hchange⟩ := Outcome.bind_eq_ok.mp hchange
            obtain ⟨product, hproduct, hpredicted⟩ := Outcome.bind_eq_ok.mp hchange
            cases hpredicted
            exact .residual operator image product hmode hoperator himage hproduct hsufficient

/-- A trial has one step and leads to one point. -/
theorem TrialAt.unique (h : search.TrialAt objective descent y options j diff trial)
    (h' : search.TrialAt objective descent y options j diff' trial') :
    diff = diff' ∧ trial = trial' := by
  obtain ⟨value, f, aux, stepSize⟩ := trial
  obtain ⟨value', f', aux', stepSize'⟩ := trial'
  obtain ⟨hsize, hcompute, hadd, hobjective⟩ := h
  obtain ⟨hsize', hcompute', hadd', hobjective'⟩ := h'
  dsimp only at *
  obtain rfl := hsize.trans hsize'.symm
  cases hcompute.symm.trans hcompute'
  cases hadd.symm.trans hadd'
  cases hobjective.symm.trans hobjective'
  exact ⟨rfl, rfl⟩

theorem TrialAt.descendsAt (h : search.TrialAt objective descent y options j diff trial) :
    search.DescendsAt descent options j :=
  ⟨diff, h.stepSize ▸ h.compute⟩

theorem AcceptsAt.makesAt (h : search.AcceptsAt objective descent y options j trial) :
    search.MakesAt objective descent y options j trial := by
  obtain ⟨diff, htrial, -, hlow⟩ := h
  obtain ⟨predicted, hchange, -⟩ := lowEnough_iff.mp hlow
  exact ⟨diff, htrial, fun _ => ⟨predicted, hchange⟩⟩

theorem MakesAt.descendsAt (h : search.MakesAt objective descent y options j trial) :
    search.DescendsAt descent options j := by
  obtain ⟨diff, htrial, -⟩ := h
  exact htrial.descendsAt

theorem MakesAt.unique (h : search.MakesAt objective descent y options j trial)
    (h' : search.MakesAt objective descent y options j trial') : trial = trial' := by
  obtain ⟨diff, htrial, -⟩ := h
  obtain ⟨diff', htrial', -⟩ := h'
  exact (htrial.unique htrial').2

/-- A trial that is passed over is the only one of its number, so no other is acceptable. -/
theorem PassesAt.not_acceptsAt (h : search.PassesAt objective descent y options j trial) :
    ¬search.AcceptsAt objective descent y options j trial' := by
  intro haccepts
  obtain rfl := h.1.unique haccepts.makesAt
  exact h.2 haccepts

end Trial

section Loop

variable {search : Backtracking α} {objective : Tree κ α → Checked (α × Aux)} {descent : Descent κ α}
  {y : Tree κ α} {options : LineSearchOptions κ α Aux} {j : Nat} {trial : Trial κ α Aux}

/-- An acceptable trial ends the search. -/
theorem trials_of_accepts (h : search.AcceptsAt objective descent y options j trial)
    (remaining : Nat) (best : Option (Trial κ α Aux)) :
    search.trials objective descent y options (remaining + 1) j
        (search.stepSizeAt options.initStepSize j) best =
      .ok ⟨trial.value, .successful, ⟨search.nextInit j trial.stepSize, j + 1⟩, trial.aux⟩ := by
  obtain ⟨diff, htrial, hfinite, hlow⟩ := h
  obtain ⟨predicted, hchange, hsufficient⟩ := lowEnough_iff.mp hlow
  rw [← htrial.stepSize, trials_succ htrial.compute htrial.add htrial.objective hfinite hchange,
    if_pos hsufficient]

/-- A trial that is passed over leaves the search to the next one. -/
theorem trials_of_passes (h : search.PassesAt objective descent y options j trial)
    (remaining : Nat) (best : Option (Trial κ α Aux)) :
    search.trials objective descent y options (remaining + 1) j
        (search.stepSizeAt options.initStepSize j) best =
      search.trials objective descent y options remaining (j + 1)
        (search.stepSizeAt options.initStepSize (j + 1)) (keep best trial) := by
  obtain ⟨⟨diff, htrial, hchange⟩, hnot⟩ := h
  rw [stepSizeAt, ← htrial.stepSize, keep]
  by_cases hfinite : Scalar.isFinite trial.objective = true
  · obtain ⟨predicted, hchange⟩ := hchange hfinite
    have hinsufficient : ¬search.sufficient options.objective predicted trial.objective = true :=
      fun hsufficient =>
        hnot ⟨diff, htrial, hfinite, lowEnough_iff.mpr ⟨predicted, hchange, hsufficient⟩⟩
    rw [trials_succ htrial.compute htrial.add htrial.objective hfinite hchange,
      if_neg hinsufficient, if_pos hfinite]
  · have hsuccess : Status.successful.isSuccessful = true := rfl
    simp only [trials, htrial.compute, hsuccess, htrial.add, htrial.objective, hfinite,
      Outcome.ok_bind, Outcome.liftM_eq_toOutcome, Checked.toOutcome_ok, if_true]
    rfl

/-- A trial whose objective is known is accepted or passed over, unless its change cannot be
predicted. -/
theorem TrialAt.trialEnds {diff : Tree κ α}
    (h : search.TrialAt objective descent y options j diff trial) :
    search.TrialEnds objective descent y options j := by
  by_cases haccepts : search.AcceptsAt objective descent y options j trial
  case pos => exact .accepted trial haccepts
  by_cases hfinite : Scalar.isFinite trial.objective = true
  case neg => exact .passed trial ⟨⟨diff, h, fun hf => absurd hf hfinite⟩, haccepts⟩
  cases hchange : options.predictedChange diff with
  | ok predicted => exact .passed trial ⟨⟨diff, h, fun _ => ⟨predicted, hchange⟩⟩, haccepts⟩
  | error fault =>
      refine .faulted fault fun remaining best => ?_
      rw [← h.stepSize]
      simp [trials, h.compute, h.add, h.objective, hfinite, hchange]

/-- What becomes of a trial is settled by the descent and by the calls that follow it. -/
theorem trialEnds (search : Backtracking α) (objective : Tree κ α → Checked (α × Aux))
    (descent : Descent κ α) (y : Tree κ α) (options : LineSearchOptions κ α Aux) (j : Nat) :
    search.TrialEnds objective descent y options j := by
  cases hcompute : descent.compute (search.stepSizeAt options.initStepSize j)
      options.descentOptions with
  | error failure => exact .failed failure hcompute
  | ok step =>
      by_cases hsuccess : step.status = .successful
      case neg => exact .refused step hsuccess hcompute
      obtain ⟨diff, status⟩ := step
      obtain rfl : status = .successful := hsuccess
      cases hadd : y.add diff with
      | error fault =>
          refine .faulted fault fun remaining best => ?_
          simp [trials, hcompute, hadd]
      | ok value =>
          cases hobjective : objective value with
          | error fault =>
              refine .faulted fault fun remaining best => ?_
              simp [trials, hcompute, hadd, hobjective]
          | ok answer =>
              obtain ⟨f, aux⟩ := answer
              have htrial : search.TrialAt objective descent y options j diff
                  ⟨value, f, aux, search.stepSizeAt options.initStepSize j⟩ :=
                ⟨rfl, hcompute, hadd, hobjective⟩
              exact htrial.trialEnds

/-- A search from a finite objective comes to every trial within its budget that all earlier trials are
passed over for. -/
theorem attempt_eq_trials (hpresent : Scalar.isFinite options.objective = true) :
    ∀ {k remaining : Nat}, k + remaining = search.maxSteps →
      (∀ j < k, ∃ trial, search.PassesAt objective descent y options j trial) →
      ∃ best, search.KeptBefore objective descent y options k best ∧
        search.attempt objective descent y options =
          search.trials objective descent y options remaining k
            (search.stepSizeAt options.initStepSize k) best := by
  intro k
  induction k with
  | zero =>
      intro remaining hbudget _
      obtain rfl : remaining = search.maxSteps := by omega
      exact ⟨none, .zero, if_pos hpresent⟩
  | succ k ih =>
      intro remaining hbudget hpasses
      obtain ⟨best, hkept, hattempt⟩ := @ih (remaining + 1) (by omega) fun j hj => hpasses j (by omega)
      obtain ⟨trial, htrial⟩ := hpasses k (Nat.lt_succ_self k)
      refine ⟨keep best trial, .succ hkept htrial, ?_⟩
      rw [hattempt, trials_of_passes htrial]

/-- A search that succeeds does so at an acceptable trial, and every trial that it made before was
passed over. The induction is on the trials that are left. -/
theorem exists_acceptsAt_of_trials (remaining : Nat) :
    ∀ (j : Nat) (best : Option (Trial κ α Aux)) (found : LineSearchSolution κ α Aux),
      search.trials objective descent y options remaining j
          (search.stepSizeAt options.initStepSize j) best = .ok found →
      found.status = .successful →
      ∃ k, j ≤ k ∧ k < j + remaining ∧
        (∃ trial, search.AcceptsAt objective descent y options k trial) ∧
        ∀ i, j ≤ i → i < k → ∃ trial, search.PassesAt objective descent y options i trial := by
  induction remaining with
  | zero =>
      intro j best found hfound hstatus
      cases hfound
      cases best with
      | none => cases hstatus
      | some earlier => cases hstatus
  | succ remaining ih =>
      intro j best found hfound hstatus
      cases search.trialEnds objective descent y options j with
      | accepted trial htrial =>
          exact ⟨j, Nat.le_refl j, by omega, ⟨trial, htrial⟩, fun i hji hij => by omega⟩
      | passed trial htrial =>
          rw [trials_of_passes htrial] at hfound
          obtain ⟨k, hjk, hk, haccepts, hpasses⟩ := ih _ _ found hfound hstatus
          refine ⟨k, by omega, by omega, haccepts, fun i hji hik => ?_⟩
          rcases Nat.eq_or_lt_of_le hji with rfl | hlt
          · exact ⟨trial, htrial⟩
          · exact hpasses i hlt hik
      | refused step hfails hcompute =>
          rw [trials, hcompute, Outcome.ok_bind, Status.isSuccessful_eq_false hfails] at hfound
          cases hfound
          exact absurd hstatus hfails
      | failed failure hcompute =>
          rw [trials, hcompute] at hfound
          cases hfound
      | faulted fault hfault =>
          rw [hfault] at hfound
          cases hfound

end Loop

end Backtracking

end LeastSquares
