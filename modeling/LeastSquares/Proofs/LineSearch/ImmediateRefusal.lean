import LeastSquares.Proofs.Exact.RefusedStep
import LeastSquares.Proofs.LineSearch.TrialSequence

/-!
# Newton's descent fails at once or never

Newton's descent solves its system before it looks at the step size. So it fails in the same way for
every step size, or it answers the same status for all of them and goes along one direction, by minus the
step size.

A backtracking search calls its descent once for each trial. If the descent fails at a trial that the
search comes to, it would have failed at the first one already, and then the search ends there before it
has asked the objective anything (`newton_refusesAtOnce`). No trial that was better is lost when such a
search stays where it is.
-/

namespace LeastSquares

variable {κ α Aux : Type} [Scalar α]

/-- What a descent makes of all step sizes: it always fails in the same way, or it always answers one
status and minus the step size times one direction. -/
inductive GoesAlongRay (compute : α → Outcome Error (DescentStep κ α)) : Prop
  | fails (failure : Failure Error) (h : ∀ stepSize, compute stepSize = .error failure)
  | answers (direction : Tree κ α) (status : Status)
      (h : ∀ stepSize, ∃ diff, compute stepSize = .ok ⟨diff, status⟩ ∧
        diff.skeleton = direction.skeleton ∧
        diff.leaves = direction.leaves.map fun x => -stepSize * x)

/-- Newton's descent goes along its direction, brought to unit length if that is asked for. -/
theorem NewtonDescent.goesAlongRay [Dense.Kernels α] (descent : NewtonDescent α)
    (options : DescentOptions κ α) :
    GoesAlongRay fun stepSize => descent.compute stepSize options := by
  cases hdirection : descent.direction options with
  | error failure =>
      refine .fails failure fun stepSize => ?_
      simp only [compute, hdirection, Outcome.error_bind]
  | ok solution =>
      refine .answers (normalize descent.norm solution.value) solution.status fun stepSize => ?_
      refine ⟨(normalize descent.norm solution.value).scale (-stepSize), ?_, ?_, ?_⟩
      · simp only [compute, hdirection, Outcome.ok_bind, Outcome.pure_eq_ok]
      · exact Tree.skeleton_withLeaves _ _
      · exact Tree.leaves_scale _ _

namespace GoesAlongRay

variable {compute : α → Outcome Error (DescentStep κ α)} (h : GoesAlongRay compute)

include h

/-- A failure at one step size is the failure at every other. -/
theorem error_at {stepSize : α} {failure : Failure Error} (hfails : compute stepSize = .error failure)
    (other : α) : compute other = .error failure := by
  cases h with
  | fails failure' hall =>
      rw [hall] at hfails ⊢
      exact hfails
  | answers direction status hall =>
      obtain ⟨diff, hdiff, -⟩ := hall stepSize
      cases hdiff.symm.trans hfails

/-- A status at one step size is the status at every other. -/
theorem status_at {stepSize : α} {step : DescentStep κ α} (hstep : compute stepSize = .ok step)
    (other : α) : ∃ diff, compute other = .ok ⟨diff, step.status⟩ := by
  cases h with
  | fails failure hall => cases (hall stepSize).symm.trans hstep
  | answers direction status hall =>
      obtain ⟨diff, hdiff, -⟩ := hall stepSize
      cases hdiff.symm.trans hstep
      obtain ⟨diff', hdiff', -⟩ := hall other
      exact ⟨diff', hdiff'⟩

end GoesAlongRay

namespace Backtracking

section Refusal

variable (search : Backtracking α) (objective : Tree κ α → Checked (α × Aux)) (descent : Descent κ α)
  (y : Tree κ α) (options : LineSearchOptions κ α Aux)

/-- The search comes to trial `k`: it begins at all, the trial is within its budget, and every earlier
trial is passed over. -/
structure ComesTo (k : Nat) : Prop where
  begins : Scalar.isFinite options.objective = true
  lt : k < search.maxSteps
  passes : ∀ j < k, ∃ trial, search.PassesAt objective descent y options j trial

/-- How a search ends, as far as its descent is concerned: with a status of its own, or at a trial that
it comes to and the descent fails at, or by a fault. -/
inductive DescentEnds : Outcome Error (LineSearchSolution κ α Aux) → Prop
  | searched (found : LineSearchSolution κ α Aux)
      (h : found.status = .successful ∨ found.status = .maxStepsReached ∨
        found.status = .lineSearchFailed) : DescentEnds (.ok found)
  | refused (k : Nat) (step : DescentStep κ α)
      (hcomes : search.ComesTo objective descent y options k)
      (hcompute : descent.compute (search.stepSizeAt options.initStepSize k) options.descentOptions =
        .ok step) (hfails : step.status ≠ .successful) :
      DescentEnds (.ok (.stay y options step.status (k + 1)))
  | failed (k : Nat) (failure : Failure Error)
      (hcomes : search.ComesTo objective descent y options k)
      (hcompute : descent.compute (search.stepSizeAt options.initStepSize k) options.descentOptions =
        .error failure) : DescentEnds (.error failure)
  | faulted (fault : Fault) : DescentEnds (.error (.broken fault))

/-- A search that fails with its descent fails at its first trial, whatever the objective is. A status
that is none of the search itself has come from the descent. -/
structure RefusesAtOnce : Prop where
  refused : ∀ objective k step, search.ComesTo objective descent y options k →
    descent.compute (search.stepSizeAt options.initStepSize k) options.descentOptions = .ok step →
    step.status ≠ .successful →
    k = 0 ∧ ∀ other throwing, search.toLineSearch.search other descent y options throwing =
      (LineSearchSolution.stay y options step.status 1).deliver throwing
  failed : ∀ objective k failure, search.ComesTo objective descent y options k →
    descent.compute (search.stepSizeAt options.initStepSize k) options.descentOptions =
      .error failure →
    k = 0 ∧ ∀ other throwing, search.toLineSearch.search other descent y options throwing =
      .error failure
  passedOn : ∀ objective found,
    search.toLineSearch.search objective descent y options false = .ok found →
    found.status ≠ .successful → found.status ≠ .maxStepsReached →
    found.status ≠ .lineSearchFailed →
    found.state.numSteps = 1 ∧
      ∀ other, search.toLineSearch.search other descent y options false = .ok found
  reported : ∀ objective error,
    search.toLineSearch.search objective descent y options false = .error (.reported error) →
    ∀ other, search.toLineSearch.search other descent y options false = .error (.reported error)

end Refusal

variable {search : Backtracking α} {objective : Tree κ α → Checked (α × Aux)} {descent : Descent κ α}
  {y : Tree κ α} {options : LineSearchOptions κ α Aux} {k : Nat}

omit [Scalar α] in
/-- When the trials have run out, the status is one of the search. -/
theorem exhausted_status (best : Option (Trial κ α Aux)) (numSteps : Nat) :
    (exhausted y options best numSteps).status = .maxStepsReached ∨
      (exhausted y options best numSteps).status = .lineSearchFailed := by
  cases best with
  | none => exact .inr rfl
  | some trial => exact .inl rfl

/-- The induction is on the trials that are left; the search has come to the present one. -/
theorem trials_descentEnds (hbegins : Scalar.isFinite options.objective = true) (remaining : Nat) :
    ∀ (j : Nat) (best : Option (Trial κ α Aux)), j + remaining = search.maxSteps →
      (∀ i < j, ∃ trial, search.PassesAt objective descent y options i trial) →
      search.DescentEnds objective descent y options
        (search.trials objective descent y options remaining j
          (search.stepSizeAt options.initStepSize j) best) := by
  induction remaining with
  | zero =>
      intro j best _ _
      exact .searched _ (.inr (exhausted_status best search.maxSteps))
  | succ remaining ih =>
      intro j best hbudget hpasses
      have hcomes : search.ComesTo objective descent y options j := ⟨hbegins, by omega, hpasses⟩
      cases search.trialEnds objective descent y options j with
      | accepted trial htrial =>
          rw [trials_of_accepts htrial]
          exact .searched _ (.inl rfl)
      | passed trial htrial =>
          rw [trials_of_passes htrial]
          refine ih (j + 1) _ (by omega) fun i hi => ?_
          rcases Nat.lt_succ_iff_lt_or_eq.mp hi with hlt | rfl
          · exact hpasses i hlt
          · exact ⟨trial, htrial⟩
      | refused step hfails hcompute =>
          rw [trials, hcompute, Outcome.ok_bind, Status.isSuccessful_eq_false hfails]
          exact .refused j step hcomes hcompute hfails
      | failed failure hcompute =>
          rw [trials, hcompute, Outcome.error_bind]
          exact .failed j failure hcomes hcompute
      | faulted fault hfault =>
          rw [hfault]
          exact .faulted fault

theorem attempt_descentEnds (search : Backtracking α) (objective : Tree κ α → Checked (α × Aux))
    (descent : Descent κ α) (y : Tree κ α) (options : LineSearchOptions κ α Aux) :
    search.DescentEnds objective descent y options
      (search.attempt objective descent y options) := by
  unfold attempt
  split
  case isTrue hbegins =>
    exact trials_descentEnds hbegins search.maxSteps 0 none (Nat.zero_add _) fun i hi =>
      absurd hi (Nat.not_lt_zero i)
  case isFalse => exact .searched _ (.inr (.inr rfl))

/-- A search comes to a later trial only if the descent succeeds at the first one. -/
theorem ComesTo.descendsAt_zero (h : search.ComesTo objective descent y options k) (hk : k ≠ 0) :
    search.DescendsAt descent options 0 := by
  obtain ⟨trial, hpasses⟩ := h.passes 0 (by omega)
  exact hpasses.1.descendsAt

theorem ComesTo.maxSteps_pos (h : search.ComesTo objective descent y options k) :
    0 < search.maxSteps := by
  have := h.lt
  omega

section Ray

variable (hray : GoesAlongRay fun stepSize => descent.compute stepSize options.descentOptions)

include hray

/-- A failing status at a trial is one at the first trial, where the search ends with it. -/
theorem ComesTo.of_refused (hcomes : search.ComesTo objective descent y options k)
    {step : DescentStep κ α}
    (hcompute : descent.compute (search.stepSizeAt options.initStepSize k) options.descentOptions =
      .ok step) (hfails : step.status ≠ .successful) :
    k = 0 ∧ ∀ other, search.attempt other descent y options =
      .ok (.stay y options step.status 1) := by
  obtain ⟨diff, hfirst⟩ := hray.status_at hcompute options.initStepSize
  constructor
  · by_contra hk
    obtain ⟨diff', hdescends⟩ := hcomes.descendsAt_zero hk
    have hsame := Except.ok.inj (hfirst.symm.trans hdescends)
    exact hfails (congrArg DescentStep.status hsame)
  · intro other
    exact attempt_of_refused hcomes.maxSteps_pos hcomes.begins hfirst hfails

theorem ComesTo.of_failed (hcomes : search.ComesTo objective descent y options k)
    {failure : Failure Error}
    (hcompute : descent.compute (search.stepSizeAt options.initStepSize k) options.descentOptions =
      .error failure) :
    k = 0 ∧ ∀ other, search.attempt other descent y options = .error failure := by
  have hfirst := hray.error_at hcompute options.initStepSize
  constructor
  · by_contra hk
    obtain ⟨diff, hdescends⟩ := hcomes.descendsAt_zero hk
    cases hfirst.symm.trans hdescends
  · intro other
    exact attempt_of_failure hcomes.maxSteps_pos hcomes.begins hfirst

/-- A search along a ray fails with its descent at once or never. -/
theorem refusesAtOnce : search.RefusesAtOnce descent y options where
  refused := by
    intro objective k step hcomes hcompute hfails
    obtain ⟨hk, hsame⟩ := hcomes.of_refused hray hcompute hfails
    refine ⟨hk, fun other throwing => ?_⟩
    simp only [toLineSearch, hsame other, Outcome.ok_bind]
  failed := by
    intro objective k failure hcomes hcompute
    obtain ⟨hk, hsame⟩ := hcomes.of_failed hray hcompute
    refine ⟨hk, fun other throwing => ?_⟩
    simp only [toLineSearch, hsame other, Outcome.error_bind]
  passedOn := by
    intro objective found hfound hsuccess hexhausted hhopeless
    have hattempt : search.attempt objective descent y options = .ok found :=
      (deliver_unthrown _).symm.trans hfound
    have hends := attempt_descentEnds search objective descent y options
    rw [hattempt] at hends
    cases hends with
    | searched _ hstatus =>
        rcases hstatus with hstatus | hstatus | hstatus
        · exact absurd hstatus hsuccess
        · exact absurd hstatus hexhausted
        · exact absurd hstatus hhopeless
    | refused k step hcomes hcompute hfails =>
        obtain ⟨rfl, hsame⟩ := hcomes.of_refused hray hcompute hfails
        exact ⟨rfl, fun other => (deliver_unthrown _).trans (hsame other)⟩
  reported := by
    intro objective error hreported other
    have hattempt : search.attempt objective descent y options = .error (.reported error) :=
      (deliver_unthrown _).symm.trans hreported
    have hends := attempt_descentEnds search objective descent y options
    rw [hattempt] at hends
    cases hends with
    | failed k _ hcomes hcompute =>
        obtain ⟨-, hsame⟩ := hcomes.of_failed hray hcompute
        exact (deliver_unthrown _).trans (hsame other)

end Ray

/-- **Newton's descent fails at once or never.** For all step sizes it fails in the same way, or it has
one status and goes along one direction. So in a backtracking search that it drives, a trial at which it
fails is the first one, the search ends there with one trial counted, and it would end so with every
other objective. -/
theorem newton_refusesAtOnce [Dense.Kernels α] (descent : NewtonDescent α) :
    (∀ options : DescentOptions κ α, GoesAlongRay fun stepSize => descent.compute stepSize options) ∧
      ∀ (search : Backtracking α) (y : Tree κ α) (options : LineSearchOptions κ α Aux),
        search.RefusesAtOnce descent.toDescent y options :=
  ⟨descent.goesAlongRay, fun _ _ options =>
    refusesAtOnce (descent.goesAlongRay options.descentOptions)⟩

section SquarePlusOne

open Exact Matrix

/-- The square plus one at zero, where its slope is zero. -/
noncomputable def flat : Linearization Unit Exact (List Exact) :=
  ⟨.scalar (real 1), squarePlusOne.tangent (.scalar (real 0)), [real 0]⟩

/-- What a search from there is told. -/
noncomputable def atFlat : LineSearchOptions Unit Exact (List Exact) :=
  GaussNewton.searchOptions flat {} (.scalar (real 0)) (real 1)

/-- Where the slope is zero Newton's descent refuses every size. -/
theorem compute_flat (stepSize : ℝ) :
    ∃ diff, NewtonDescent.compute {} (real stepSize) atFlat.descentOptions = .ok ⟨diff, .singular⟩ := by
  have hslope : (!![2 * 0] : Matrix (Fin 1) (Fin 1) ℝ) 0 0 = 0 := by simp
  have hleaves : flat.value.leaves = vector ![(0 : ℝ) * 0 + 1] := by
    rw [vector_one]
    simp [flat, Tree.leaves]
  have htangent : ActsAs flat.tangent (.scalar (real 0)) !![2 * 0] :=
    (squarePlusOne_linearizesAt (real 0) 0).tangent
  exact compute_of_refused (s := .scalar (real 0)) (x := (![0] : Fin 1 → ℝ)) hleaves htangent
    (solve_single_zero hslope _) rfl none (real stepSize) (real 1)

/-- Where the slope is zero the search stays after one trial, also if the objective cannot be asked. -/
theorem newton_refusesAtOnce_flat :
    Backtracking.standard.toLineSearch.search (fun _ => .error (.leafCount 0 0))
        (NewtonDescent.toDescent {}) (.scalar (real 0)) atFlat false =
      .ok ⟨.scalar (real 0), .singular, ⟨real 1, 1⟩, [real 0]⟩ := by
  obtain ⟨diff, hcompute⟩ := compute_flat 1
  have hcomes : Backtracking.standard.ComesTo (fun _ => .error (.leafCount 0 0))
      (NewtonDescent.toDescent {}) (.scalar (real 0)) atFlat 0 :=
    ⟨rfl, by decide, fun j hj => absurd hj (Nat.not_lt_zero j)⟩
  exact (((newton_refusesAtOnce {}).2 .standard (.scalar (real 0)) atFlat).refused _ 0 _ hcomes
    hcompute Status.noConfusion).2 _ false

end SquarePlusOne

end Backtracking

end LeastSquares
