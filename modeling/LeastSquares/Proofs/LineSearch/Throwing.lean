import LeastSquares.Proofs.LineSearch.FirstAcceptable
import LeastSquares.Proofs.LineSearch.ImmediateRefusal

/-!
# Throwing the status of a line search

A line search is told whether to throw a failing status. It may ask for that at each of its exits, or
once for whatever it ends with: where the trials run out, where a trial is accepted, where the descent
fails and where no trial is made, the delivery is the same (`deliverAtExits_eq`). So two searches that
differ in this flag alone make the same trials. They find the same point if the search succeeds, one
reports the status that the other returns if it fails, and an error of the descent is the error of both
(`search_throw`).
-/

namespace LeastSquares

variable {κ α Aux : Type}

/-! ### Delivering a solution -/

namespace LineSearchSolution

theorem deliver_of_successful {found : LineSearchSolution κ α Aux} (h : found.status = .successful)
    (throwing : Bool) : found.deliver throwing = .ok found := by
  simp [deliver, h]

theorem deliver_of_failed {found : LineSearchSolution κ α Aux} (h : found.status ≠ .successful) :
    found.deliver true = Outcome.report (.lineSearch found.status) := by
  simp [deliver, Status.isSuccessful_eq_false h]

section Delivered

variable {x : Outcome Error (LineSearchSolution κ α Aux)}

/-- What is delivered is a success. -/
theorem deliver_eq_ok_iff {found : LineSearchSolution κ α Aux} :
    x >>= deliver true = .ok found ↔ x = .ok found ∧ found.status = .successful := by
  rw [Outcome.bind_eq_ok]
  constructor
  · rintro ⟨found', rfl, hdeliver⟩
    by_cases hsuccess : found'.status = .successful
    · rw [deliver_of_successful hsuccess] at hdeliver
      cases hdeliver
      exact ⟨rfl, hsuccess⟩
    · rw [deliver_of_failed hsuccess] at hdeliver
      cases hdeliver
  · rintro ⟨rfl, hsuccess⟩
    exact ⟨found, rfl, deliver_of_successful hsuccess true⟩

/-- What is reported is the status of a failure, or it was reported before. -/
theorem deliver_eq_report_iff {error : Error} :
    x >>= deliver true = Outcome.report error ↔
      (∃ found, x = .ok found ∧ found.status ≠ .successful ∧ error = .lineSearch found.status) ∨
        x = Outcome.report error := by
  cases x with
  | error failure => simp [Outcome.report]
  | ok found =>
      rw [Outcome.ok_bind]
      by_cases hsuccess : found.status = .successful
      · simp [deliver_of_successful hsuccess, Outcome.report, hsuccess]
      · rw [deliver_of_failed hsuccess]
        constructor
        · intro h
          cases h
          exact .inl ⟨found, rfl, hsuccess, rfl⟩
        · rintro (⟨found', hfound, -, rfl⟩ | hfound)
          · rw [Except.ok.inj hfound]
          · cases hfound

theorem deliver_eq_broken_iff {fault : Fault} :
    x >>= deliver true = .error (.broken fault) ↔ x = .error (.broken fault) := by
  cases x with
  | error failure => rfl
  | ok found =>
      by_cases hsuccess : found.status = .successful
      · simp [deliver_of_successful hsuccess]
      · simp [deliver_of_failed hsuccess, Outcome.report]

end Delivered

end LineSearchSolution

variable [Scalar α]

/-! ### Delivering at each exit -/

section Exits

variable {objective : Tree κ α → Checked (α × Aux)} {descent : Descent κ α} {y : Tree κ α}
  {options : LineSearchOptions κ α Aux}

namespace Backtracking

/-- The trials of a search that delivers at each exit. -/
def trialsDelivering (search : Backtracking α) (throwing : Bool)
    (objective : Tree κ α → Checked (α × Aux)) (descent : Descent κ α) (y : Tree κ α)
    (options : LineSearchOptions κ α Aux) :
    (remaining trial : Nat) → α → Option (Trial κ α Aux) →
      Outcome Error (LineSearchSolution κ α Aux)
  | 0, _, _, best => (exhausted y options best search.maxSteps).deliver throwing
  | remaining + 1, trial, stepSize, best => do
      let step ← descent.compute stepSize options.descentOptions
      if step.status.isSuccessful then
        let value ← y.add step.diff
        let (f, aux) ← objective value
        let smaller := stepSize * search.decreaseFactor
        if Scalar.isFinite f then
          let predicted ← options.predictedChange step.diff
          if search.sufficient options.objective predicted f then
            LineSearchSolution.deliver throwing
              ⟨value, .successful, ⟨search.nextInit trial stepSize, trial + 1⟩, aux⟩
          else
            trialsDelivering search throwing objective descent y options remaining (trial + 1) smaller
              (some (better best ⟨value, f, aux, stepSize⟩))
        else
          trialsDelivering search throwing objective descent y options remaining (trial + 1) smaller
            best
      else (LineSearchSolution.stay y options step.status (trial + 1)).deliver throwing

/-- Delivering at each exit of the loop is delivering what the loop ends with. The induction is on the
trials that are left. -/
theorem trialsDelivering_eq (search : Backtracking α) (throwing : Bool) (remaining : Nat) :
    ∀ (trial : Nat) (stepSize : α) (best : Option (Trial κ α Aux)),
      search.trialsDelivering throwing objective descent y options remaining trial stepSize best =
        search.trials objective descent y options remaining trial stepSize best >>=
          LineSearchSolution.deliver throwing := by
  induction remaining with
  | zero => exact fun trial stepSize best => rfl
  | succ remaining ih =>
      intro trial stepSize best
      rw [trialsDelivering, trials, bind_assoc]
      refine bind_congr fun step => ?_
      by_cases hsuccess : step.status.isSuccessful = true
      case neg =>
        rw [if_neg hsuccess, if_neg hsuccess]
        rfl
      rw [if_pos hsuccess, if_pos hsuccess, bind_assoc]
      refine bind_congr fun value => ?_
      rw [bind_assoc]
      refine bind_congr fun answer => ?_
      obtain ⟨f, aux⟩ := answer
      dsimp only
      by_cases hfinite : Scalar.isFinite f = true
      case neg =>
        rw [if_neg hfinite, if_neg hfinite]
        exact ih _ _ _
      rw [if_pos hfinite, if_pos hfinite, bind_assoc]
      refine bind_congr fun predicted => ?_
      by_cases hsufficient : search.sufficient options.objective predicted f = true
      · rw [if_pos hsufficient, if_pos hsufficient]
        rfl
      · rw [if_neg hsufficient, if_neg hsufficient]
        exact ih _ _ _

end Backtracking

/-- A search that delivers at each of its exits. -/
def StandardSearch.deliverAtExits (throwing : Bool) (objective : Tree κ α → Checked (α × Aux))
    (descent : Descent κ α) (y : Tree κ α) (options : LineSearchOptions κ α Aux) :
    StandardSearch α → Outcome Error (LineSearchSolution κ α Aux)
  | .fixed search => do
      let step ← descent.compute search.size options.descentOptions
      if step.status.isSuccessful then
        let value ← y.add step.diff
        let (_, aux) ← objective value
        LineSearchSolution.deliver throwing ⟨value, step.status, ⟨search.size, 1⟩, aux⟩
      else (LineSearchSolution.stay y options step.status 1).deliver throwing
  | .backtracking search =>
      if Scalar.isFinite options.objective then
        search.trialsDelivering throwing objective descent y options search.maxSteps 0
          options.initStepSize none
      else (LineSearchSolution.stay y options .lineSearchFailed 0).deliver throwing

/-- No exit of a search goes past the delivery. -/
theorem deliverAtExits_eq (search : StandardSearch α) (throwing : Bool) :
    search.deliverAtExits throwing objective descent y options =
      search.toLineSearch.search objective descent y options throwing := by
  cases search with
  | fixed search =>
      show _ = (search.attempt objective descent y options >>= _)
      rw [StandardSearch.deliverAtExits, FixedStep.attempt, bind_assoc]
      refine bind_congr fun step => ?_
      by_cases hsuccess : step.status.isSuccessful = true
      · rw [if_pos hsuccess, if_pos hsuccess, bind_assoc]
        refine bind_congr fun value => ?_
        rw [bind_assoc]
        exact bind_congr fun _ => rfl
      · rw [if_neg hsuccess, if_neg hsuccess]
        rfl
  | backtracking search =>
      show _ = (search.attempt objective descent y options >>= _)
      rw [StandardSearch.deliverAtExits, Backtracking.attempt]
      by_cases hpresent : Scalar.isFinite options.objective = true
      · rw [if_pos hpresent, if_pos hpresent]
        exact search.trialsDelivering_eq throwing _ _ _ _
      · rw [if_neg hpresent, if_neg hpresent]
        rfl

/-- Throwing is delivering what the search without throwing returns. -/
theorem search_eq_deliver (search : StandardSearch α) (throwing : Bool) :
    search.toLineSearch.search objective descent y options throwing =
      search.toLineSearch.search objective descent y options false >>=
        LineSearchSolution.deliver throwing := by
  cases search with
  | fixed search =>
      rw [StandardSearch.search_fixed]
      rfl
  | backtracking search =>
      rw [StandardSearch.search_backtracking]
      rfl

end Exits

/-! ### Errors of the descent -/

section Errs

variable (objective : Tree κ α → Checked (α × Aux)) (descent : Descent κ α) (y : Tree κ α)
  (options : LineSearchOptions κ α Aux)

/-- The descent reports an error where a search asks it: at the fixed size, or at a trial that
backtracking comes to. -/
inductive DescentErrs (error : Error) : StandardSearch α → Prop
  | fixed (search : FixedStep α)
      (h : descent.compute search.size options.descentOptions = Outcome.report error) :
      DescentErrs error (.fixed search)
  | backtracking (search : Backtracking α) (k : Nat)
      (hcomes : search.ComesTo objective descent y options k)
      (h : descent.compute (search.stepSizeAt options.initStepSize k) options.descentOptions =
        Outcome.report error) :
      DescentErrs error (.backtracking search)

variable {objective descent y options}

/-- A fixed step reports nothing but an error of its descent. -/
theorem FixedStep.attempt_ne_report {search : FixedStep α} {step : DescentStep κ α}
    (hcompute : descent.compute search.size options.descentOptions = .ok step) (error : Error) :
    search.attempt objective descent y options ≠ Outcome.report error := by
  rw [attempt, hcompute, Outcome.ok_bind]
  split
  · cases y.add step.diff with
    | error fault =>
        intro h
        cases h
    | ok value =>
        cases hobjective : objective value with
        | error fault => simp [hobjective, Outcome.report]
        | ok answer => simp [hobjective, Outcome.report]
  · intro h
    cases h

/-- The errors of a search that throws nothing are those of its descent. -/
theorem descentErrs_iff {search : StandardSearch α} {error : Error} :
    DescentErrs objective descent y options error search ↔
      search.toLineSearch.search objective descent y options false = Outcome.report error := by
  constructor
  · intro h
    cases h with
    | fixed search h =>
        rw [StandardSearch.search_fixed]
        exact FixedStep.attempt_of_failure h
    | backtracking search k hcomes h =>
        obtain ⟨remaining, hremaining⟩ := Nat.exists_eq_add_of_lt hcomes.lt
        have hbudget : k + (remaining + 1) = search.maxSteps := by omega
        obtain ⟨best, -, hattempt⟩ :=
          Backtracking.attempt_eq_trials hcomes.begins hbudget hcomes.passes
        rw [StandardSearch.search_backtracking, hattempt, Backtracking.trials, h]
        rfl
  · intro h
    cases search with
    | fixed search =>
        rw [StandardSearch.search_fixed] at h
        cases hcompute : descent.compute search.size options.descentOptions with
        | ok step => exact absurd h (FixedStep.attempt_ne_report hcompute error)
        | error failure =>
            rw [FixedStep.attempt_of_failure hcompute] at h
            cases h
            exact .fixed search hcompute
    | backtracking search =>
        rw [StandardSearch.search_backtracking] at h
        have hends := search.attempt_descentEnds objective descent y options
        rw [h] at hends
        cases hends with
        | failed k failure hcomes hcompute => exact .backtracking search k hcomes hcompute

/-! ### Newton's descent throws no status -/

/-- A solve against an operator reports a linear solver that was called wrongly, and nothing else. -/
theorem LinearOperator.exists_of_solve_report [Dense.Kernels α] {operator : LinearOperator κ α}
    {vector : Tree κ α} {strategy : Dense.Strategy} {error : Error}
    (h : operator.solve vector strategy = Outcome.report error) :
    ∃ report, error = .linearSolver report := by
  unfold solve at h
  cases hmatrix : operator.matrix with
  | error fault =>
      rw [hmatrix] at h
      cases h
  | ok a =>
      simp only [hmatrix, Outcome.liftM_eq_toOutcome, Checked.toOutcome_ok, Outcome.ok_bind] at h
      split at h
      · rename_i x hx
        cases hrebuild : operator.domain.rebuild x with
        | error fault => simp [hrebuild, Outcome.report] at h
        | ok value => simp [hrebuild, Outcome.report] at h
      · cases h
      · rename_i report hreport
        split at h
        · cases h
        · cases h
          exact ⟨report, rfl⟩

/-- Newton's descent reports no thrown status, only an error in the way it was set up. -/
theorem NewtonDescent.compute_ne_lineSearch [Dense.Kernels α] (descent : NewtonDescent α)
    (options : DescentOptions κ α) (stepSize : α) (status : Status) :
    descent.compute stepSize options ≠ Outcome.report (.lineSearch status) := by
  intro h
  rcases Outcome.bind_eq_error.mp h with hdirection | ⟨solution, -, hstep⟩
  · unfold direction at hdirection
    split at hdirection
    · cases hdirection
    · rename_i vector hvector
      split at hdirection
      · rename_i inverse hinverse
        cases himage : inverse.apply vector with
        | error fault => simp [himage] at hdirection
        | ok image => simp [himage] at hdirection
      · obtain ⟨report, hreport⟩ := LinearOperator.exists_of_solve_report hdirection
        cases hreport
      · cases hdirection
  · cases hstep

/-! ### Two searches that differ in throwing -/

/-- **Throwing the status of a line search.** Of two searches that differ in this alone, both deliver at
each of their exits. The one that throws finds exactly the successful solutions of the other, and it
reports the status of every other solution. Both report an error of the descent, where a search asks it,
and nothing else is reported; both have the same faults. So a thrown status is the status of a solution
that failed, unless the descent itself reported it, which Newton's descent never does. -/
theorem search_throw (search : StandardSearch α) (objective : Tree κ α → Checked (α × Aux))
    (descent : Descent κ α) (y : Tree κ α) (options : LineSearchOptions κ α Aux) :
    let returned := search.toLineSearch.search objective descent y options false
    let thrown := search.toLineSearch.search objective descent y options true
    search.deliverAtExits false objective descent y options = returned ∧
    search.deliverAtExits true objective descent y options = thrown ∧
    (∀ found, thrown = .ok found ↔ returned = .ok found ∧ found.status = .successful) ∧
    (∀ status, thrown = Outcome.report (.lineSearch status) ↔
      (∃ found, returned = .ok found ∧ found.status = status ∧ status ≠ .successful) ∨
        DescentErrs objective descent y options (.lineSearch status) search) ∧
    ((∀ stepSize status, descent.compute stepSize options.descentOptions ≠
        Outcome.report (.lineSearch status)) →
      ∀ status, thrown = Outcome.report (.lineSearch status) ↔
        ∃ found, returned = .ok found ∧ found.status = status ∧ status ≠ .successful) ∧
    (∀ [Dense.Kernels α] (newton : NewtonDescent α), descent = newton.toDescent →
      ∀ status, thrown = Outcome.report (.lineSearch status) ↔
        ∃ found, returned = .ok found ∧ found.status = status ∧ status ≠ .successful) ∧
    (∀ error, DescentErrs objective descent y options error search →
      returned = Outcome.report error ∧ thrown = Outcome.report error) ∧
    (∀ error, returned = Outcome.report error →
      DescentErrs objective descent y options error search) ∧
    (∀ fault, thrown = .error (.broken fault) ↔ returned = .error (.broken fault)) := by
  intro returned thrown
  have hthrown : thrown = returned >>= LineSearchSolution.deliver true :=
    search_eq_deliver search true
  have herrs (error : Error) : DescentErrs objective descent y options error search ↔
      returned = Outcome.report error := descentErrs_iff
  have hstatus (status : Status) : thrown = Outcome.report (.lineSearch status) ↔
      (∃ found, returned = .ok found ∧ found.status = status ∧ status ≠ .successful) ∨
        DescentErrs objective descent y options (.lineSearch status) search := by
    rw [hthrown, LineSearchSolution.deliver_eq_report_iff, herrs]
    refine or_congr_left (exists_congr fun found => and_congr_right fun _ => ?_)
    constructor
    · rintro ⟨hfails, heq⟩
      cases heq
      exact ⟨rfl, hfails⟩
    · rintro ⟨rfl, hfails⟩
      exact ⟨hfails, rfl⟩
  have hunthrown (hdescent : ∀ stepSize status, descent.compute stepSize options.descentOptions ≠
      Outcome.report (.lineSearch status)) (status : Status) :
      thrown = Outcome.report (.lineSearch status) ↔
        ∃ found, returned = .ok found ∧ found.status = status ∧ status ≠ .successful := by
    rw [hstatus]
    refine or_iff_left fun herr => ?_
    cases herr with
    | fixed search h => exact hdescent _ _ h
    | backtracking search k hcomes h => exact hdescent _ _ h
  refine ⟨deliverAtExits_eq search false, deliverAtExits_eq search true, fun found => ?_, hstatus,
    hunthrown, ?_, fun error herr => ?_, fun error => (herrs error).mpr, fun fault => ?_⟩
  · rw [hthrown]
    exact LineSearchSolution.deliver_eq_ok_iff
  · rintro _ newton rfl
    exact hunthrown (newton.compute_ne_lineSearch options.descentOptions)
  · have hreturned := (herrs error).mp herr
    refine ⟨hreturned, ?_⟩
    rw [hthrown, hreturned]
    rfl
  · rw [hthrown]
    exact LineSearchSolution.deliver_eq_broken_iff

end Errs

section Overshoot

open Exact Backtracking

/-- A descent that was not told what to descend along. -/
def unset : Descent Unit Exact := ⟨fun _ _ => Outcome.report .missingVector⟩

/-- After two trials too far the status is returned or thrown; one fixed step succeeds either way; a
descent that is not set up is the error of both; and where the slope is zero the status of Newton's
descent is thrown. -/
theorem search_throw_overshoot :
    (∃ found, (StandardSearch.backtracking (halvings 2)).toLineSearch.search squareFromThree overshoot
          (.scalar (real 0)) atZero false = .ok found ∧ found.status = .maxStepsReached) ∧
      (StandardSearch.backtracking (halvings 2)).toLineSearch.search squareFromThree overshoot
          (.scalar (real 0)) atZero true = Outcome.report (.lineSearch .maxStepsReached) ∧
      (StandardSearch.fixed ⟨real 1⟩).toLineSearch.search squareFromThree overshoot
          (.scalar (real 0)) atZero true =
        .ok ⟨.scalar (real (0 + 1 * 12)), .successful, ⟨real 1, 1⟩, .scalar (real (0 + 1 * 12 - 3))⟩ ∧
      (StandardSearch.fixed ⟨real 1⟩).toLineSearch.search squareFromThree unset
          (.scalar (real 0)) atZero true = Outcome.report .missingVector ∧
      (StandardSearch.fixed ⟨real 1⟩).toLineSearch.search squarePlusOne.objective
          (NewtonDescent.toDescent {}) (.scalar (real 0)) atFlat true =
        Outcome.report (.lineSearch .singular) := by
  obtain ⟨-, -, -, -, hthrown, -⟩ := search_throw (.backtracking (halvings 2)) squareFromThree
    overshoot (.scalar (real 0)) atZero
  obtain ⟨-, -, hsuccess, -⟩ := search_throw (.fixed ⟨real 1⟩) squareFromThree overshoot
    (.scalar (real 0)) atZero
  obtain ⟨-, -, -, -, -, -, herror, -⟩ := search_throw (.fixed ⟨real 1⟩) squareFromThree unset
    (.scalar (real 0)) atZero
  obtain ⟨-, -, -, -, -, hnewton, -⟩ := search_throw (.fixed ⟨real 1⟩) squarePlusOne.objective
    (NewtonDescent.toDescent {}) (.scalar (real 0)) atFlat
  have hreturned : ∃ found, (StandardSearch.backtracking (halvings 2)).toLineSearch.search
      squareFromThree overshoot (.scalar (real 0)) atZero false = .ok found ∧
      found.status = .maxStepsReached := by
    have hbudget : 2 + 0 = (halvings 2).maxSteps := rfl
    obtain ⟨best, hkept, hattempt⟩ := attempt_eq_trials rfl hbudget
      fun j hj => ⟨_, overshoot_passesAt 2 hj⟩
    rw [StandardSearch.search_backtracking, hattempt]
    cases hkept with
    | succ before h =>
        obtain rfl := h.1.unique (overshoot_passesAt 2 Nat.one_lt_two).1
        exact ⟨_, rfl, rfl⟩
  have hreports : ∀ stepSize status, overshoot.compute stepSize atZero.descentOptions ≠
      Outcome.report (.lineSearch status) := fun stepSize status h => nomatch h
  refine ⟨hreturned, (hthrown hreports _).mpr ?_, (hsuccess _).mpr ⟨?_, rfl⟩,
    (herror _ (.fixed _ rfl)).2, (hnewton {} rfl _).mpr ?_⟩
  · obtain ⟨found, hfound, hstatus⟩ := hreturned
    exact ⟨found, hfound, hstatus, Status.noConfusion⟩
  · rw [StandardSearch.search_fixed]
    exact FixedStep.attempt_of_successful rfl rfl (squareFromThree_scalar _)
  · obtain ⟨diff, hcompute⟩ := compute_flat 1
    have hstays : (StandardSearch.fixed ⟨real 1⟩).toLineSearch.search squarePlusOne.objective
        (NewtonDescent.toDescent {}) (.scalar (real 0)) atFlat false =
          .ok (.stay (.scalar (real 0)) atFlat .singular 1) := by
      rw [StandardSearch.search_fixed]
      exact FixedStep.attempt_of_refused hcompute Status.noConfusion
    exact ⟨_, hstays, rfl, Status.noConfusion⟩

end Overshoot

end LeastSquares
