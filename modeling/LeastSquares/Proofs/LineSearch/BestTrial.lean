import LeastSquares.Proofs.FiniteOrder
import LeastSquares.Proofs.Iteration.FiniteObjective
import LeastSquares.Proofs.LineSearch.FirstAcceptable

/-!
# Backtracking falls back on its best trial

A search that accepts none of its trials answers the best of them: the first one whose objective is
lowest among the finite ones. Point, auxiliary output and step size are those of this one trial. If no
objective is finite the search stays where it is, and from an objective that is not finite it does not
begin at all (`search_exhausted`). What makes a trial the best so far is preserved by one more trial
(`LowestBefore.keep`), whether its objective is below the best so far, above it, equal to it or not
finite.
-/

namespace LeastSquares.Backtracking

variable {κ α Aux : Type} [Scalar α]

section Lowest

variable (search : Backtracking α) (objective : Tree κ α → Checked (α × Aux)) (descent : Descent κ α)
  (y : Tree κ α) (options : LineSearchOptions κ α Aux)

/-- Trial `k` is the first one with the lowest objective among the finite ones of the first `n`
trials. -/
structure FirstLowest (n k : Nat) (trial : Trial κ α Aux) : Prop where
  lt : k < n
  makes : search.MakesAt objective descent y options k trial
  finite : Scalar.isFinite trial.objective = true
  lowest : ∀ j < n, ∀ other, search.MakesAt objective descent y options j other →
    Scalar.isFinite other.objective = true → Scalar.le trial.objective other.objective = true
  first : ∀ j < k, ∀ other, search.MakesAt objective descent y options j other →
    Scalar.isFinite other.objective = true → Scalar.lt trial.objective other.objective = true

/-- What is known of the best of the first `n` trials. -/
inductive LowestBefore (n : Nat) : Option (Trial κ α Aux) → Prop
  | none (h : ∀ j < n, ∀ trial, search.MakesAt objective descent y options j trial →
      Scalar.isFinite trial.objective = false) : LowestBefore n none
  | some (k : Nat) (trial : Trial κ α Aux)
      (h : search.FirstLowest objective descent y options n k trial) : LowestBefore n (some trial)

/-- Where a search ends that accepts none of its trials. -/
structure EndsAtBest (outcome : Outcome Error (LineSearchSolution κ α Aux)) : Prop where
  moved : (∃ j < search.maxSteps, ∃ trial, search.MakesAt objective descent y options j trial ∧
      Scalar.isFinite trial.objective = true) →
    ∃ k trial, search.FirstLowest objective descent y options search.maxSteps k trial ∧
      outcome = .ok
        { value := trial.value
          status := .maxStepsReached
          state :=
            { nextInit := search.stepSizeAt options.initStepSize k
              numSteps := search.maxSteps }
          aux := trial.aux }
  stayed : (∀ j < search.maxSteps, ∀ trial, search.MakesAt objective descent y options j trial →
      Scalar.isFinite trial.objective = false) →
    outcome = .ok
      { value := y
        status := .lineSearchFailed
        state := { nextInit := options.initStepSize, numSteps := search.maxSteps }
        aux := options.aux }

end Lowest

section Best

variable {search : Backtracking α} {objective : Tree κ α → Checked (α × Aux)} {descent : Descent κ α}
  {y : Tree κ α} {options : LineSearchOptions κ α Aux} {n k : Nat} {trial other : Trial κ α Aux}
  {best : Option (Trial κ α Aux)}

theorem MakesAt.stepSize (h : search.MakesAt objective descent y options k trial) :
    trial.stepSize = search.stepSizeAt options.initStepSize k := by
  obtain ⟨diff, htrial, -⟩ := h
  exact htrial.stepSize

/-- A trial that is not below the lowest one leaves it in its place. -/
theorem FirstLowest.succ (h : search.FirstLowest objective descent y options n k trial)
    (hmakes : search.MakesAt objective descent y options n other)
    (hle : Scalar.isFinite other.objective = true →
      Scalar.le trial.objective other.objective = true) :
    search.FirstLowest objective descent y options (n + 1) k trial where
  lt := Nat.lt_succ_of_lt h.lt
  makes := h.makes
  finite := h.finite
  lowest := by
    intro j hj candidate hcandidate hfinite
    rcases Nat.lt_succ_iff_lt_or_eq.mp hj with hlt | rfl
    · exact h.lowest j hlt candidate hcandidate hfinite
    · obtain rfl := hmakes.unique hcandidate
      exact hle hfinite
  first := h.first

/-- When the trials have run out, the best one is answered. -/
theorem LowestBefore.endsAtBest
    (h : search.LowestBefore objective descent y options search.maxSteps best) :
    search.EndsAtBest objective descent y options
      (.ok (exhausted y options best search.maxSteps)) := by
  cases h with
  | none hnone =>
      refine ⟨?_, fun _ => rfl⟩
      rintro ⟨j, hj, trial, hmakes, hfinite⟩
      rw [hnone j hj trial hmakes] at hfinite
      cases hfinite
  | some k kept hkept =>
      constructor
      · intro _
        refine ⟨k, kept, hkept, ?_⟩
        rw [exhausted, hkept.makes.stepSize]
      · intro hnone
        have hinfinite := hnone k hkept.lt kept hkept.makes
        rw [hkept.finite] at hinfinite
        cases hinfinite

/-- A search that passes over all of its trials ends with the best of them. -/
theorem attempt_of_passes (hpresent : Scalar.isFinite options.objective = true)
    (hpasses : ∀ j < search.maxSteps, ∃ trial, search.PassesAt objective descent y options j trial) :
    ∃ best, search.KeptBefore objective descent y options search.maxSteps best ∧
      search.attempt objective descent y options = .ok (exhausted y options best search.maxSteps) :=
  attempt_eq_trials hpresent (Nat.add_zero _) hpasses

variable [Scalar.LawfulOrder α]

/-- A trial below all finite ones before is the first lowest one. -/
theorem FirstLowest.last (hmakes : search.MakesAt objective descent y options n trial)
    (hfinite : Scalar.isFinite trial.objective = true)
    (hlt : ∀ j < n, ∀ other, search.MakesAt objective descent y options j other →
      Scalar.isFinite other.objective = true → Scalar.lt trial.objective other.objective = true) :
    search.FirstLowest objective descent y options (n + 1) n trial where
  lt := Nat.lt_succ_self n
  makes := hmakes
  finite := hfinite
  lowest := by
    intro j hj other hother hfinite'
    rcases Nat.lt_succ_iff_lt_or_eq.mp hj with hj' | rfl
    · exact Scalar.LawfulOrder.le_of_lt hfinite hfinite' (hlt j hj' other hother hfinite')
    · obtain rfl := hmakes.unique hother
      exact Scalar.LawfulOrder.le_self hfinite
  first := hlt

/-- One more trial: the best one so far is the first lowest one again. -/
theorem LowestBefore.keep (h : search.LowestBefore objective descent y options n best)
    (hmakes : search.MakesAt objective descent y options n trial) :
    search.LowestBefore objective descent y options (n + 1) (keep best trial) := by
  unfold Backtracking.keep
  cases h with
  | none hnone =>
      split
      case isTrue hfinite =>
        refine .some n trial (.last hmakes hfinite fun j hj other hother hfinite' => ?_)
        rw [hnone j hj other hother] at hfinite'
        cases hfinite'
      case isFalse hinfinite =>
        refine .none fun j hj other hother => ?_
        rcases Nat.lt_succ_iff_lt_or_eq.mp hj with hj' | rfl
        · exact hnone j hj' other hother
        · obtain rfl := hmakes.unique hother
          exact Bool.eq_false_iff.mpr hinfinite
  | some k kept hkept =>
      split
      case isTrue hfinite =>
        unfold better
        dsimp only
        split
        case isTrue hlt =>
          refine .some n trial (.last hmakes hfinite fun j hj other hother hfinite' => ?_)
          exact Scalar.LawfulOrder.lt_of_lt_of_le hfinite hkept.finite hfinite' hlt
            (hkept.lowest j hj other hother hfinite')
        case isFalse hnot =>
          -- Also a trial that is as low as the best one so far comes too late.
          exact .some k kept (hkept.succ hmakes fun _ =>
            Scalar.LawfulOrder.le_of_not_lt hkept.finite hfinite hnot)
      case isFalse hinfinite =>
        exact .some k kept (hkept.succ hmakes fun hfinite => absurd hfinite hinfinite)

/-- The best trial so far is the first lowest one, after any number of trials. -/
theorem KeptBefore.lowestBefore (h : search.KeptBefore objective descent y options n best) :
    search.LowestBefore objective descent y options n best := by
  induction h with
  | zero => exact .none fun j hj => absurd hj (Nat.not_lt_zero j)
  | succ before h ih => exact ih.keep h.1

/-- **Backtracking falls back on its best trial.** From an objective that is not finite a search fails
whatever descent and objective are, without a trial. From a finite one, if the descent succeeds at every
step size within the budget, no trial is acceptable and no call faults, the search ends at the first of
the lowest finite trials if there is one, and stays where it is if there is none. -/
theorem search_exhausted (search : Backtracking α) (objective : Tree κ α → Checked (α × Aux))
    (descent : Descent κ α) (y : Tree κ α) (options : LineSearchOptions κ α Aux) :
    (Scalar.isFinite options.objective = false →
      search.toLineSearch.search objective descent y options false =
        .ok ⟨y, .lineSearchFailed, ⟨options.initStepSize, 0⟩, options.aux⟩) ∧
    (Scalar.isFinite options.objective = true →
      (∀ fault, search.toLineSearch.search objective descent y options false ≠
        .error (.broken fault)) →
      (∀ j < search.maxSteps, search.DescendsAt descent options j ∧
        ∀ trial, ¬search.AcceptsAt objective descent y options j trial) →
      search.EndsAtBest objective descent y options
        (search.toLineSearch.search objective descent y options false)) := by
  have hrun : search.toLineSearch.search objective descent y options false =
      search.attempt objective descent y options := deliver_unthrown _
  rw [hrun]
  refine ⟨attempt_of_not_finite search objective, fun hpresent hfaultless hnone => ?_⟩
  obtain ⟨best, hkept, hattempt⟩ := attempt_of_passes hpresent
    (passesAt_of_descendsAt hpresent hfaultless (Nat.le_refl _) hnone)
  rw [hattempt]
  exact hkept.lowestBefore.endsAtBest

end Best

section Overshoot

open Exact

/-- With two trials the search ends at the second, the lower one. It fails without a trial if there is
none left in the budget, and if the present objective is not a number. -/
theorem search_exhausted_overshoot :
    (halvings 2).toLineSearch.search squareFromThree overshoot (.scalar (real 0)) atZero false =
        .ok ⟨.scalar (real ((1 / 2) ^ 1 * 12)), .maxStepsReached, ⟨real ((1 / 2) ^ 1), 2⟩,
          .scalar (real ((1 / 2) ^ 1 * 12 - 3))⟩ ∧
      (halvings 0).toLineSearch.search squareFromThree overshoot (.scalar (real 0)) atZero false =
        .ok ⟨.scalar (real 0), .lineSearchFailed, ⟨real 1, 0⟩, .scalar (real (-3))⟩ ∧
      (halvings 2).toLineSearch.search squareFromThree overshoot (.scalar (real 0))
          { atZero with objective := .nan } false =
        .ok ⟨.scalar (real 0), .lineSearchFailed, ⟨real 1, 0⟩, .scalar (real (-3))⟩ := by
  have hpresent : Scalar.isFinite atZero.objective = true := rfl
  refine ⟨?_, ?_, ?_⟩
  · have hpasses : ∀ j < (halvings 2).maxSteps, ∃ trial,
        (halvings 2).PassesAt squareFromThree overshoot (.scalar (real 0)) atZero j trial :=
      fun j hj => ⟨_, overshoot_passesAt 2 hj⟩
    obtain ⟨best, -, hattempt⟩ := attempt_of_passes hpresent hpasses
    have hends := (search_exhausted (halvings 2) squareFromThree overshoot (.scalar (real 0)) atZero).2
      hpresent (fun fault h => by simp [toLineSearch, hattempt, LineSearchSolution.deliver] at h)
      fun j hj => ⟨(overshoot_passesAt 2 hj).1.descendsAt, fun _ =>
        (overshoot_passesAt 2 hj).not_acceptsAt⟩
    have hsecond := (overshoot_passesAt 2 Nat.one_lt_two).1
    obtain ⟨k, trial, hlowest, hfound⟩ := hends.moved ⟨1, by decide, _, hsecond, rfl⟩
    obtain rfl := hlowest.makes.unique (overshoot_passesAt 2 hlowest.lt).1
    have hlt : k < 2 := hlowest.lt
    interval_cases k
    · have hle := of_decide_eq_true (hlowest.lowest 1 (by decide) _ hsecond rfl)
      norm_num at hle
    · have hsize : (halvings 2).stepSizeAt atZero.initStepSize 1 = real ((1 / 2) ^ 1) :=
        stepSizeAt_halvings 2 1
      rw [hsize] at hfound
      exact hfound
  · have hends := (search_exhausted (halvings 0) squareFromThree overshoot (.scalar (real 0)) atZero).2
      hpresent (fun fault h => by cases h) (fun j hj => absurd hj (Nat.not_lt_zero j))
    exact hends.stayed fun j hj => absurd hj (Nat.not_lt_zero j)
  · exact (search_exhausted (halvings 2) squareFromThree overshoot (.scalar (real 0))
      { atZero with objective := .nan }).1 rfl

end Overshoot

end LeastSquares.Backtracking
