import LeastSquares.Proofs.Iteration.Newton

/-!
# How a line search ends

A trial is what descent and objective make of a step size. The two line searches of this library, told
to throw nothing, end in one of three ways: at a trial, with success or because the trials ran out; at
the point they began from, with the failing status of the descent; or there because no trial was of
any use. Otherwise the descent reported an error, which is passed on, or a call faulted. The descent is
arbitrary (`search_ends`).
-/

namespace LeastSquares

variable {κ α Aux : Type} [Scalar α]

/-- What a descent and an objective make of a step size: a step that succeeds, the point it leads to,
and what the objective answers there. -/
structure IsTrial (objective : Tree κ α → Checked (α × Aux)) (descent : Descent κ α)
    (y : Tree κ α) (options : LineSearchOptions κ α Aux) (trial : Trial κ α Aux) : Prop where
  step : ∃ diff, descent.compute trial.stepSize options.descentOptions = .ok ⟨diff, .successful⟩ ∧
    y.add diff = .ok trial.value
  objective : objective trial.value = .ok (trial.objective, trial.aux)

/-- The ends of a line search. -/
inductive SearchEnds (objective : Tree κ α → Checked (α × Aux)) (descent : Descent κ α)
    (y : Tree κ α) (options : LineSearchOptions κ α Aux) :
    Outcome Error (LineSearchSolution κ α Aux) → Prop
  | moved (trial : Trial κ α Aux) (status : Status) (state : LineSearchState α)
      (h : IsTrial objective descent y options trial)
      (hstatus : status = .successful ∨ status = .maxStepsReached) :
      SearchEnds objective descent y options (.ok ⟨trial.value, status, state, trial.aux⟩)
  | refused (stepSize : α) (step : DescentStep κ α) (numSteps : Nat)
      (hcompute : descent.compute stepSize options.descentOptions = .ok step)
      (hfails : step.status ≠ .successful) :
      SearchEnds objective descent y options (.ok (.stay y options step.status numSteps))
  | hopeless (numSteps : Nat) :
      SearchEnds objective descent y options (.ok (.stay y options .lineSearchFailed numSteps))
  | reported (stepSize : α) (error : Error)
      (hcompute : descent.compute stepSize options.descentOptions = .error (.reported error)) :
      SearchEnds objective descent y options (.error (.reported error))
  | faulted (fault : Fault) : SearchEnds objective descent y options (.error (.broken fault))

section Ends

variable {objective : Tree κ α → Checked (α × Aux)} {descent : Descent κ α} {y : Tree κ α}
  {options : LineSearchOptions κ α Aux}

/-- A checked call before the rest of a search can only fault. -/
theorem SearchEnds.of_checked {β : Type} {x : Checked β}
    {rest : β → Outcome Error (LineSearchSolution κ α Aux)}
    (h : ∀ b, x = .ok b → SearchEnds objective descent y options (rest b)) :
    SearchEnds objective descent y options (Checked.toOutcome x >>= rest) := by
  cases x with
  | ok b => exact h b rfl
  | error fault => exact .faulted fault

/-- A call of the descent before the rest of a search. -/
theorem SearchEnds.of_compute (stepSize : α)
    {rest : DescentStep κ α → Outcome Error (LineSearchSolution κ α Aux)}
    (h : ∀ step, descent.compute stepSize options.descentOptions = .ok step →
      SearchEnds objective descent y options (rest step)) :
    SearchEnds objective descent y options
      (descent.compute stepSize options.descentOptions >>= rest) := by
  cases hcompute : descent.compute stepSize options.descentOptions with
  | ok step => exact h step hcompute
  | error failure =>
      cases failure with
      | broken fault => exact .faulted fault
      | reported error => exact .reported stepSize error hcompute

/-- The induction is on the trials that are left. The best trial so far is a trial. -/
theorem trials_ends (search : Backtracking α) (remaining : Nat) :
    ∀ (trial : Nat) (stepSize : α) (best : Option (Trial κ α Aux)),
      (∀ earlier ∈ best, IsTrial objective descent y options earlier) →
      SearchEnds objective descent y options
        (search.trials objective descent y options remaining trial stepSize best) := by
  induction remaining with
  | zero =>
      intro trial stepSize best hbest
      cases best with
      | none => exact .hopeless search.maxSteps
      | some earlier => exact .moved earlier .maxStepsReached _ (hbest earlier rfl) (.inr rfl)
  | succ remaining ih =>
      intro trial stepSize best hbest
      refine SearchEnds.of_compute stepSize fun step hcompute => ?_
      by_cases hsuccess : step.status = .successful
      · obtain ⟨diff, status⟩ := step
        obtain rfl : status = .successful := hsuccess
        refine SearchEnds.of_checked fun value hadd => ?_
        refine SearchEnds.of_checked fun answer hobjective => ?_
        obtain ⟨f, aux⟩ := answer
        have htrial : IsTrial objective descent y options ⟨value, f, aux, stepSize⟩ :=
          ⟨⟨diff, hcompute, hadd⟩, hobjective⟩
        dsimp only
        split
        · refine SearchEnds.of_checked fun predicted _ => ?_
          split
          · exact .moved ⟨value, f, aux, stepSize⟩ .successful _ htrial (.inl rfl)
          · exact ih (trial + 1) _ _ (Backtracking.forall_mem_better hbest htrial)
        · exact ih (trial + 1) _ best hbest
      · rw [if_neg fun h => hsuccess ((Status.isSuccessful_iff _).mp h)]
        exact .refused stepSize step (trial + 1) hcompute hsuccess

theorem backtracking_ends (search : Backtracking α) :
    SearchEnds objective descent y options (search.attempt objective descent y options) := by
  unfold Backtracking.attempt
  split
  · exact trials_ends search search.maxSteps 0 options.initStepSize none fun _ hnone => nomatch hnone
  · exact .hopeless 0

theorem fixedStep_ends (search : FixedStep α) :
    SearchEnds objective descent y options (search.attempt objective descent y options) := by
  refine SearchEnds.of_compute search.size fun step hcompute => ?_
  by_cases hsuccess : step.status = .successful
  · obtain ⟨diff, status⟩ := step
    obtain rfl : status = .successful := hsuccess
    refine SearchEnds.of_checked fun value hadd => ?_
    refine SearchEnds.of_checked fun answer hobjective => ?_
    obtain ⟨f, aux⟩ := answer
    exact .moved ⟨value, f, aux, search.size⟩ .successful _ ⟨⟨diff, hcompute, hadd⟩, hobjective⟩
      (.inl rfl)
  · rw [if_neg fun h => hsuccess ((Status.isSuccessful_iff _).mp h)]
    exact .refused search.size step 1 hcompute hsuccess

/-- **The ends of a line search**, for both searches and any descent. -/
theorem search_ends (search : StandardSearch α) (objective : Tree κ α → Checked (α × Aux))
    (descent : Descent κ α) (y : Tree κ α) (options : LineSearchOptions κ α Aux) :
    SearchEnds objective descent y options
      (search.toLineSearch.search objective descent y options false) := by
  cases search with
  | fixed search =>
      rw [StandardSearch.search_fixed]
      exact fixedStep_ends search
  | backtracking search =>
      rw [StandardSearch.search_backtracking]
      exact backtracking_ends search

end Ends

end LeastSquares
