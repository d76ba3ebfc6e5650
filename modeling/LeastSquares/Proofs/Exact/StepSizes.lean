import LeastSquares.Proofs.Iteration.SearchStart
import LeastSquares.Proofs.LineSearch.TrialSequence

/-!
# The step sizes of a run

The step size in the state goes round: a search starts from it and leaves another one behind, on one
of four ways. A first trial that is accepted leaves a larger one, under the cap; a later one leaves
its own; a search whose trials ran out leaves that of its best trial; and a search that stays leaves
the one it started from. All but the first of these are step sizes of the search itself
(`trials_leaves`), which asks the descent for no others (`trials_congr`).

In exact arithmetic the step sizes of a search are positive and at most its first one, if the factor
is one that shrinks. So every step size of a run is positive, and the only way up is a first trial
that is accepted (`stepSize_grows_after_first_trial`).
-/

namespace LeastSquares

namespace Backtracking

section Search

variable {κ α Aux : Type} [Scalar α] {search : Backtracking α}
  {objective : Tree κ α → Checked (α × Aux)} {descent descent' : Descent κ α} {y : Tree κ α}
  {options : LineSearchOptions κ α Aux} {found : LineSearchSolution κ α Aux}

/-- Trials ask the descent only for the step sizes in their sequence. The induction is on the trials
that are left. -/
theorem trials_congr
    (h : ∀ j < search.maxSteps, descent'.compute (search.stepSizeAt options.initStepSize j)
      options.descentOptions =
        descent.compute (search.stepSizeAt options.initStepSize j) options.descentOptions)
    (remaining : Nat) :
    ∀ (j : Nat) (best : Option (Trial κ α Aux)), j + remaining = search.maxSteps →
      search.trials objective descent' y options remaining j
          (search.stepSizeAt options.initStepSize j) best =
        search.trials objective descent y options remaining j
          (search.stepSizeAt options.initStepSize j) best := by
  induction remaining with
  | zero =>
      intro j best _
      rfl
  | succ remaining ih =>
      intro j best hbudget
      have hrest (best : Option (Trial κ α Aux)) := ih (j + 1) best (by omega)
      rw [stepSizeAt] at hrest
      simp only [trials, h j (by omega), hrest]

theorem attempt_congr
    (h : ∀ j < search.maxSteps, descent'.compute (search.stepSizeAt options.initStepSize j)
      options.descentOptions =
        descent.compute (search.stepSizeAt options.initStepSize j) options.descentOptions) :
    search.attempt objective descent' y options = search.attempt objective descent y options := by
  have htrials :
      search.trials objective descent' y options search.maxSteps 0 options.initStepSize none =
        search.trials objective descent y options search.maxSteps 0 options.initStepSize none :=
    trials_congr h search.maxSteps 0 none (Nat.zero_add _)
  rw [attempt, attempt, htrials]

/-- Where the step size that a search leaves comes from: it made a success of its first trial, or the
step size is one of its own. -/
inductive Leaves (search : Backtracking α) (objective : Tree κ α → Checked (α × Aux))
    (descent : Descent κ α) (y : Tree κ α) (options : LineSearchOptions κ α Aux)
    (found : LineSearchSolution κ α Aux) : Prop
  | first (trial : Trial κ α Aux) (h : search.AcceptsAt objective descent y options 0 trial)
      (hfound : found = ⟨trial.value, .successful, ⟨search.nextInit 0 options.initStepSize, 1⟩,
        trial.aux⟩)
  | tried (j : Nat) (h : found.state.nextInit = search.stepSizeAt options.initStepSize j)

/-- The induction is on the trials that are left. The best trial so far has a step size of the search.
-/
theorem trials_leaves (remaining : Nat) :
    ∀ (j : Nat) (best : Option (Trial κ α Aux)),
      (∀ earlier ∈ best, ∃ i, earlier.stepSize = search.stepSizeAt options.initStepSize i) →
      search.trials objective descent y options remaining j
          (search.stepSizeAt options.initStepSize j) best = .ok found →
      search.Leaves objective descent y options found := by
  induction remaining with
  | zero =>
      intro j best hbest hfound
      cases hfound
      cases best with
      | none => exact .tried 0 rfl
      | some earlier =>
          obtain ⟨i, hi⟩ := hbest earlier rfl
          exact .tried i hi
  | succ remaining ih =>
      intro j best hbest hfound
      cases search.trialEnds objective descent y options j with
      | accepted trial htrial =>
          have hsize : trial.stepSize = search.stepSizeAt options.initStepSize j := by
            obtain ⟨diff, hstep, -⟩ := htrial
            exact hstep.stepSize
          rw [trials_of_accepts htrial] at hfound
          cases hfound
          cases j with
          | zero =>
              rw [hsize]
              exact .first trial htrial rfl
          | succ j => exact .tried (j + 1) hsize
      | passed trial htrial =>
          rw [trials_of_passes htrial] at hfound
          refine ih (j + 1) _ (fun earlier hearlier => ?_) hfound
          obtain ⟨⟨diff, hstep, -⟩, -⟩ := htrial
          unfold keep at hearlier
          split at hearlier
          · exact forall_mem_better hbest ⟨j, hstep.stepSize⟩ earlier hearlier
          · exact hbest earlier hearlier
      | refused step hfails hcompute =>
          rw [trials, hcompute, Outcome.ok_bind, Status.isSuccessful_eq_false hfails] at hfound
          cases hfound
          exact .tried 0 rfl
      | failed failure hcompute =>
          rw [trials, hcompute] at hfound
          cases hfound
      | faulted fault hfault =>
          rw [hfault] at hfound
          cases hfound

/-- The search accepts its first trial, and makes no other. -/
def AcceptsFirst (search : Backtracking α) (objective : Tree κ α → Checked (α × Aux))
    (descent : Descent κ α) (y : Tree κ α) (options : LineSearchOptions κ α Aux) : Prop :=
  ∃ trial, search.AcceptsAt objective descent y options 0 trial ∧
    search.attempt objective descent y options =
      .ok ⟨trial.value, .successful, ⟨search.nextInit 0 options.initStepSize, 1⟩, trial.aux⟩

theorem attempt_leaves (h : search.attempt objective descent y options = .ok found) :
    search.Leaves objective descent y options found := by
  unfold attempt at h
  split at h
  · exact trials_leaves search.maxSteps 0 none (fun _ hnone => nomatch hnone) h
  · cases h
    exact .tried 0 rfl

end Search

section Sizes

open Exact

variable {search : Backtracking Exact} {s : ℝ}

/-- The step sizes of a search are positive and at most its first one. -/
theorem stepSizeAt_real (hproper : search.IsProper) (hs : 0 < s) (j : Nat) :
    ∃ c, 0 < c ∧ c ≤ s ∧ search.stepSizeAt (real s) j = real c := by
  obtain ⟨d, hd, hd', hfactor⟩ := factor_cases hproper.factor_pos hproper.factor_lt_one
  induction j with
  | zero => exact ⟨s, hs, le_rfl, rfl⟩
  | succ j ih =>
      obtain ⟨c, hc, hle, hsize⟩ := ih
      refine ⟨c * d, mul_pos hc hd, (mul_le_of_le_one_right hc.le hd'.le).trans hle, ?_⟩
      rw [stepSizeAt, hsize, hfactor, real_mul]

/-- A first trial that is accepted leaves its step size over the factor, or the cap if that is less.
-/
theorem nextInit_real (hproper : search.IsProper) (hs : 0 < s) :
    ∃ c, 0 < c ∧ search.nextInit 0 (real s) = real c ∧
      Scalar.le (real c) (real s / search.decreaseFactor) = true ∧
      Scalar.le (real c) search.stepInit = true := by
  obtain ⟨d, hd, -, hfactor⟩ := factor_cases hproper.factor_pos hproper.factor_lt_one
  have hquotient : real s / search.decreaseFactor = real (s / d) := by
    rw [hfactor, real_div s hd.ne']
  have hcap := hproper.cap_pos
  rw [nextInit, if_pos rfl, hquotient]
  cases hinit : search.stepInit with
  | real cap =>
      rw [hinit] at hcap
      have hpos : 0 < cap := of_decide_eq_true hcap
      refine ⟨min (s / d) cap, lt_min (div_pos hs hd) hpos, min_real _ _, ?_, ?_⟩
      · exact decide_eq_true (min_le_of_left_le le_rfl)
      · exact decide_eq_true (min_le_of_right_le le_rfl)
  | posInf => exact ⟨s / d, div_pos hs hd, rfl, decide_eq_true le_rfl, rfl⟩
  | negInf | nan =>
      rw [hinit] at hcap
      cases hcap

end Sizes

end Backtracking

namespace GaussNewton

open Exact Backtracking

variable {κ Aux : Type} {tolerance : Tolerance Exact} {norm : Norm Exact} {descent : Descent κ Exact}
  {search : Backtracking Exact} {residual : Residual κ Exact Aux} {tags : Tags} {y : Tree κ Exact}
  {k : Nat} {it it' : Iterate κ Exact Aux (GaussNewtonState κ Exact)}

/-- Between two iterates lies a search, and its step size goes into the second one. -/
theorem attempt_of_iterateAt
    (hit : (withSearch tolerance norm descent (.backtracking search)).toSolver.iterateAt residual tags
      y k = .ok it)
    (hit' : (withSearch tolerance norm descent (.backtracking search)).toSolver.iterateAt residual
      tags y (k + 1) = .ok it') :
    ∃ linear found, residual.linearize it.point = .ok linear ∧
      search.attempt residual.objective descent it.point
        (searchOptions linear tags it.point it.state.stepSize) = .ok found ∧
      it'.point = found.value ∧ it'.state.stepSize = found.state.nextInit := by
  obtain ⟨aux, hstep, -⟩ := IterativeSolver.step_of_iterateAt hit hit'
  obtain ⟨linear, found, diff, hlinear, hsearch, -, hpoint, -, hstate⟩ := step_eq_ok.mp hstep
  have hattempt := (StandardSearch.search_backtracking ..).symm.trans hsearch
  exact ⟨linear, found, hlinear, hattempt, hpoint, by rw [hstate]⟩

/-- Every state of a run holds a positive step size. -/
theorem stepSize_positive (hproper : search.IsProper) (k : Nat) :
    ∀ it, (withSearch tolerance norm descent (.backtracking search)).toSolver.iterateAt residual tags
        y k = .ok it →
      IsPositive it.state.stepSize := by
  induction k with
  | zero =>
      intro it hit
      obtain ⟨state, hstart, rfl⟩ := IterativeSolver.iterateAt_zero_eq_ok.mp hit
      cases hstart
      exact ⟨1, one_pos, rfl⟩
  | succ k ih =>
      intro it hit
      obtain ⟨before, hbefore, -⟩ := IterativeSolver.iterateAt_succ_eq_ok.mp hit
      obtain ⟨linear, found, -, hattempt, -, hsize⟩ := attempt_of_iterateAt hbefore hit
      obtain ⟨s, hs, hstart⟩ := ih before hbefore
      rw [hsize]
      cases attempt_leaves hattempt with
      | first trial _ hfound =>
          obtain ⟨c, hc, hnext, -⟩ := nextInit_real hproper hs
          rw [hfound]
          exact ⟨c, hc, (congrArg (search.nextInit 0) hstart).trans hnext⟩
      | tried j htried =>
          obtain ⟨c, hc, -, hsizeAt⟩ := stepSizeAt_real hproper hs j
          exact ⟨c, hc, htried.trans ((congrArg (search.stepSizeAt · j) hstart).trans hsizeAt)⟩

/-- **The step sizes of a run.** With a factor between zero and one and a cap above zero, in exact
arithmetic and for any descent, every state of a run holds a positive step size. Every trial of the
search from there has a positive step size that is not above it, and the search asks the descent for
no other. The next state holds a larger step size only if the search accepts its first trial; and if
it does, the next step size is at most the one before over the factor, and at most the cap. -/
theorem stepSize_grows_after_first_trial (hproper : search.IsProper) (tolerance : Tolerance Exact)
    (norm : Norm Exact) (descent : Descent κ Exact) (residual : Residual κ Exact Aux) (tags : Tags)
    (y : Tree κ Exact) (k : Nat) (it : Iterate κ Exact Aux (GaussNewtonState κ Exact))
    (hit : (withSearch tolerance norm descent (.backtracking search)).toSolver.iterateAt residual tags
      y k = .ok it) :
    IsPositive it.state.stepSize ∧
    (∀ linear, residual.linearize it.point = .ok linear →
      (∀ j, IsPositive (search.stepSizeAt it.state.stepSize j) ∧
        Scalar.le (search.stepSizeAt it.state.stepSize j) it.state.stepSize = true) ∧
      (∀ j diff trial, search.TrialAt residual.objective descent it.point
        (searchOptions linear tags it.point it.state.stepSize) j diff trial →
        IsPositive trial.stepSize ∧ Scalar.le trial.stepSize it.state.stepSize = true) ∧
      ∀ descent' : Descent κ Exact,
        (∀ j < search.maxSteps, descent'.compute (search.stepSizeAt it.state.stepSize j)
            (searchOptions linear tags it.point it.state.stepSize).descentOptions =
          descent.compute (search.stepSizeAt it.state.stepSize j)
            (searchOptions linear tags it.point it.state.stepSize).descentOptions) →
        search.attempt residual.objective descent' it.point
            (searchOptions linear tags it.point it.state.stepSize) =
          search.attempt residual.objective descent it.point
            (searchOptions linear tags it.point it.state.stepSize)) ∧
    ∀ it', (withSearch tolerance norm descent (.backtracking search)).toSolver.iterateAt residual tags
        y (k + 1) = .ok it' →
      ∃ linear, residual.linearize it.point = .ok linear ∧
        (Scalar.lt it.state.stepSize it'.state.stepSize = true →
          search.AcceptsFirst residual.objective descent it.point
            (searchOptions linear tags it.point it.state.stepSize)) ∧
        (search.AcceptsFirst residual.objective descent it.point
            (searchOptions linear tags it.point it.state.stepSize) →
          Scalar.le it'.state.stepSize (it.state.stepSize / search.decreaseFactor) = true ∧
            Scalar.le it'.state.stepSize search.stepInit = true) := by
  have hpositive := stepSize_positive hproper k it hit
  obtain ⟨s, hs, hstart⟩ := hpositive
  have hsizes (j : Nat) : IsPositive (search.stepSizeAt it.state.stepSize j) ∧
      Scalar.le (search.stepSizeAt it.state.stepSize j) it.state.stepSize = true := by
    obtain ⟨c, hc, hle, hsize⟩ := stepSizeAt_real hproper hs j
    rw [hstart, hsize]
    exact ⟨⟨c, hc, rfl⟩, decide_eq_true hle⟩
  refine ⟨⟨s, hs, hstart⟩, fun linear _ => ⟨hsizes, ?_, fun descent' h => attempt_congr h⟩, ?_⟩
  · intro j diff trial htrial
    rw [htrial.stepSize]
    exact hsizes j
  · intro it' hit'
    obtain ⟨linear, found, hlinear, hattempt, -, hsize⟩ := attempt_of_iterateAt hit hit'
    refine ⟨linear, hlinear, fun hgrows => ?_, fun haccepts => ?_⟩
    · cases attempt_leaves hattempt with
      | first trial htrial hfound => exact ⟨trial, htrial, by rw [hattempt, hfound]⟩
      | tried j htried =>
          obtain ⟨c, -, hle, hsizeAt⟩ := stepSizeAt_real hproper hs j
          have hc : it'.state.stepSize = real c :=
            (hsize.trans htried).trans ((congrArg (search.stepSizeAt · j) hstart).trans hsizeAt)
          rw [hstart, hc] at hgrows
          exact absurd hle (not_le.mpr (of_decide_eq_true hgrows))
    · obtain ⟨trial, -, hfirst⟩ := haccepts
      obtain ⟨c, -, hnext, hquotient, hcap⟩ := nextInit_real hproper hs
      obtain rfl := Except.ok.inj (hattempt.symm.trans hfirst)
      have hc : it'.state.stepSize = real c :=
        hsize.trans ((congrArg (search.nextInit 0) hstart).trans hnext)
      rw [hc, hstart]
      exact ⟨hquotient, hcap⟩

end GaussNewton

section Halving

open Exact GaussNewton

/-- Under a cap of two, the first step from two on the square of the point less two leaves twice its
step size. So its search accepted the first trial, and a quotient by one half allows for no more. -/
theorem stepSize_grows_after_first_trial_halving :
    ∃ it', (withSearch ⟨real 0, real 1⟩ .max (NewtonDescent.toDescent {})
        (.backtracking (cappedHalving 2))).toSolver.iterateAt squareLessTwo {} (.scalar (real 2)) 1 =
        .ok it' ∧ it'.state.stepSize = real 2 ∧
      (∃ linear, (cappedHalving 2).AcceptsFirst squareLessTwo.objective (NewtonDescent.toDescent {})
        (.scalar (real 2)) (searchOptions linear {} (.scalar (real 2)) 1)) ∧
      Scalar.le it'.state.stepSize (1 / (cappedHalving 2).decreaseFactor) = true := by
  have hit := iterateAt_zero (withSearch ⟨real 0, real 1⟩ .max (NewtonDescent.toDescent {})
    (.backtracking (cappedHalving 2))) squareLessTwo {} (.scalar (real 2))
  have hit' := squareLessTwo_iterateAt_one 2
  rw [min_self] at hit'
  obtain ⟨-, -, hgrows⟩ := stepSize_grows_after_first_trial (cappedHalving_isProper two_pos) _ _ _ _ _
    _ 0 _ hit
  obtain ⟨linear, -, hfirst, hbounds⟩ := hgrows _ hit'
  have haccepts := hfirst (decide_eq_true one_lt_two)
  exact ⟨_, hit', rfl, ⟨linear, haccepts⟩, (hbounds haccepts).1⟩

end Halving

end LeastSquares
