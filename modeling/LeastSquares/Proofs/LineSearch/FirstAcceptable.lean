import Mathlib.Data.Nat.Find
import LeastSquares.Proofs.Exact.Number
import LeastSquares.Proofs.LineSearch.TrialSequence

/-!
# Backtracking ends at the first acceptable trial

A search from a finite objective succeeds exactly if one of the trials within its budget is acceptable
and all trials before are made; and then it ends at the first acceptable trial, whose number settles the
count of trials and the step size left to the next search. If the search does not fault, a trial is made
as soon as the descent succeeds there (`search_endsAtFirst`). Nothing is asked of descent, objective and
scalars, and failing statuses may be thrown or not.
-/

namespace LeastSquares

variable {κ α Aux : Type} [Scalar α]

/-- A search answers, and with success. -/
def Succeeds (outcome : Outcome Error (LineSearchSolution κ α Aux)) : Prop :=
  ∃ found, outcome = .ok found ∧ found.status = .successful

namespace Backtracking

/-- A search succeeds exactly if there is an acceptable trial within the budget with all earlier trials
as asked for, and the first acceptable trial is where it ends. The next search starts from the step size
of this trial. If there was no other trial, it starts from the first step size divided by the factor, or
from the cap unless the quotient is below it. -/
structure EndsAtFirst (search : Backtracking α) (objective : Tree κ α → Checked (α × Aux))
    (descent : Descent κ α) (y : Tree κ α) (options : LineSearchOptions κ α Aux)
    (earlier : Nat → Prop) (outcome : Outcome Error (LineSearchSolution κ α Aux)) : Prop where
  succeeds_iff : Succeeds outcome ↔
    ∃ k < search.maxSteps, (∃ trial, search.AcceptsAt objective descent y options k trial) ∧
      ∀ j < k, earlier j
  eq_ok : ∀ k < search.maxSteps, ∀ trial, search.AcceptsAt objective descent y options k trial →
    (∀ j < k, earlier j ∧ ∀ other, ¬search.AcceptsAt objective descent y options j other) →
    outcome = .ok
      { value := trial.value
        status := .successful
        state :=
          { nextInit :=
              if k = 0 then
                if Scalar.isNaN search.stepInit ||
                    Scalar.lt (options.initStepSize / search.decreaseFactor) search.stepInit then
                  options.initStepSize / search.decreaseFactor
                else search.stepInit
              else search.stepSizeAt options.initStepSize k
            numSteps := k + 1 }
        aux := trial.aux }

variable {search : Backtracking α} {objective : Tree κ α → Checked (α × Aux)} {descent : Descent κ α}
  {y : Tree κ α} {options : LineSearchOptions κ α Aux} {throwing : Bool}
  {found : LineSearchSolution κ α Aux}

/-- A success is delivered whether failing statuses are thrown or not. -/
theorem search_of_successful (hattempt : search.attempt objective descent y options = .ok found)
    (hstatus : found.status = .successful) :
    search.toLineSearch.search objective descent y options throwing = .ok found := by
  simp [toLineSearch, hattempt, LineSearchSolution.deliver, hstatus, Status.isSuccessful]

/-- What is delivered is what was found. -/
theorem attempt_of_search
    (hsearch : search.toLineSearch.search objective descent y options throwing = .ok found) :
    search.attempt objective descent y options = .ok found := by
  obtain ⟨found', hattempt, hdeliver⟩ := Outcome.bind_eq_ok.mp hsearch
  unfold LineSearchSolution.deliver at hdeliver
  split at hdeliver
  · cases hdeliver
  · cases hdeliver
    exact hattempt

/-- A search ends at the first acceptable trial, if the earlier trials are passed over. -/
theorem search_of_passes (hpresent : Scalar.isFinite options.objective = true) {k : Nat}
    (hk : k < search.maxSteps) {trial : Trial κ α Aux}
    (haccepts : search.AcceptsAt objective descent y options k trial)
    (hpasses : ∀ j < k, ∃ earlier, search.PassesAt objective descent y options j earlier) :
    search.toLineSearch.search objective descent y options throwing =
      .ok ⟨trial.value, .successful, ⟨search.nextInit k trial.stepSize, k + 1⟩, trial.aux⟩ := by
  obtain ⟨remaining, hbudget⟩ := Nat.exists_eq_add_of_lt hk
  have hbudget : k + (remaining + 1) = search.maxSteps := hbudget.symm
  obtain ⟨best, -, hattempt⟩ := attempt_eq_trials hpresent hbudget hpasses
  rw [trials_of_accepts haccepts] at hattempt
  exact search_of_successful hattempt rfl

/-- What is asked of the earlier trials has to hold where a trial is made, and to be enough for trials
that are not acceptable to be passed over. -/
theorem endsAtFirst_of_passes (hpresent : Scalar.isFinite options.objective = true)
    {earlier : Nat → Prop}
    (hearlier : ∀ j trial, search.MakesAt objective descent y options j trial → earlier j)
    (hpasses : ∀ k ≤ search.maxSteps,
      (∀ j < k, earlier j ∧ ∀ other, ¬search.AcceptsAt objective descent y options j other) →
      ∀ j < k, ∃ trial, search.PassesAt objective descent y options j trial) :
    search.EndsAtFirst objective descent y options earlier
      (search.toLineSearch.search objective descent y options throwing) where
  succeeds_iff := by
    constructor
    · rintro ⟨found, hsearch, hstatus⟩
      have htrials := attempt_of_search hsearch
      rw [attempt, if_pos hpresent] at htrials
      obtain ⟨k, -, hk, haccepts, hbefore⟩ :=
        exists_acceptsAt_of_trials search.maxSteps 0 none found htrials hstatus
      refine ⟨k, by omega, haccepts, fun j hj => ?_⟩
      obtain ⟨trial, htrial⟩ := hbefore j (Nat.zero_le j) hj
      exact hearlier j trial htrial.1
    · classical
      rintro ⟨k, hk, haccepts, hbefore⟩
      -- The first acceptable trial comes no later than this one.
      have hexists : ∃ k, ∃ trial, search.AcceptsAt objective descent y options k trial :=
        ⟨k, haccepts⟩
      have hle : Nat.find hexists ≤ k := Nat.find_min' hexists haccepts
      obtain ⟨trial, hfirst⟩ := Nat.find_spec hexists
      have hnone : ∀ j < Nat.find hexists,
          earlier j ∧ ∀ other, ¬search.AcceptsAt objective descent y options j other :=
        fun j hj => ⟨hbefore j (by omega), not_exists.mp (Nat.find_min hexists hj)⟩
      exact ⟨_, search_of_passes hpresent (by omega) hfirst (hpasses _ (by omega) hnone), rfl⟩
  eq_ok := by
    intro k hk trial haccepts hnone
    rw [search_of_passes hpresent hk haccepts (hpasses k (Nat.le_of_lt hk) hnone), nextInit]
    obtain ⟨diff, htrial, -⟩ := haccepts
    rw [htrial.stepSize]
    by_cases hzero : k = 0
    · subst hzero
      rfl
    · rw [if_neg hzero, if_neg hzero]

/-- In a search that does not fault, trials that are not acceptable are passed over as long as the
descent succeeds. The induction is on the number of the trial, since the search comes to it only if
the earlier ones were passed over. -/
theorem passesAt_of_descendsAt (hpresent : Scalar.isFinite options.objective = true)
    (hfaultless : ∀ fault, search.attempt objective descent y options ≠ .error (.broken fault))
    {k : Nat} (hk : k ≤ search.maxSteps)
    (hnone : ∀ j < k, search.DescendsAt descent options j ∧
      ∀ other, ¬search.AcceptsAt objective descent y options j other) :
    ∀ j < k, ∃ trial, search.PassesAt objective descent y options j trial := by
  intro j
  induction j using Nat.strongRecOn with
  | _ j ih =>
      intro hj
      obtain ⟨⟨diff, hdescends⟩, hnot⟩ := hnone j hj
      obtain ⟨remaining, hbudget⟩ := Nat.exists_eq_add_of_lt (Nat.lt_of_lt_of_le hj hk)
      have hbudget : j + (remaining + 1) = search.maxSteps := hbudget.symm
      obtain ⟨best, -, hattempt⟩ := attempt_eq_trials hpresent hbudget fun i hi =>
        ih i hi (Nat.lt_trans hi hj)
      cases search.trialEnds objective descent y options j with
      | accepted trial htrial => exact absurd htrial (hnot trial)
      | passed trial htrial => exact ⟨trial, htrial⟩
      | refused step hfails hcompute =>
          cases hcompute.symm.trans hdescends
          exact absurd rfl hfails
      | failed failure hcompute => cases hcompute.symm.trans hdescends
      | faulted fault hfault => exact absurd (hattempt.trans (hfault remaining best)) (hfaultless fault)

/-- **Backtracking ends at the first acceptable trial.** From a finite objective it succeeds exactly if
there is an acceptable trial within the budget and every earlier trial is made; and unless the search
faults, exactly if there is an acceptable trial within the budget and the descent succeeds at every
earlier step size. Either way the first acceptable trial is the answer. -/
theorem search_endsAtFirst (search : Backtracking α) (objective : Tree κ α → Checked (α × Aux))
    (descent : Descent κ α) (y : Tree κ α) (options : LineSearchOptions κ α Aux) (throwing : Bool)
    (hpresent : Scalar.isFinite options.objective = true) :
    search.EndsAtFirst objective descent y options
        (fun j => ∃ trial, search.MakesAt objective descent y options j trial)
        (search.toLineSearch.search objective descent y options throwing) ∧
      ((∀ fault, search.toLineSearch.search objective descent y options throwing ≠
          .error (.broken fault)) →
        search.EndsAtFirst objective descent y options (search.DescendsAt descent options)
          (search.toLineSearch.search objective descent y options throwing)) := by
  constructor
  · refine endsAtFirst_of_passes hpresent (fun j trial htrial => ⟨trial, htrial⟩) ?_
    intro k _ hnone j hj
    obtain ⟨⟨trial, hmakes⟩, hnot⟩ := hnone j hj
    exact ⟨trial, hmakes, hnot trial⟩
  · intro hfaultless
    refine endsAtFirst_of_passes hpresent (fun j trial htrial => htrial.descendsAt) ?_
    intro k hk hnone
    refine passesAt_of_descendsAt hpresent (fun fault hattempt => ?_) hk hnone
    exact hfaultless fault (by simp [toLineSearch, hattempt])

section Overshoot

open Exact

noncomputable section

/-- Backtracking by halves with a budget. -/
def halvings (maxSteps : Nat) : Backtracking Exact := { standard with maxSteps := maxSteps }

/-- A full step of this descent goes from zero to twelve. -/
def overshoot : Descent Unit Exact := ⟨fun stepSize _ => .ok ⟨.scalar (stepSize * real 12), .successful⟩⟩

/-- The square of the distance from three, and the distance itself. -/
def squareFromThree (t : Tree Unit Exact) : Checked (Exact × Tree Unit Exact) := do
  let distance ← t.sub (.scalar (real 3))
  return (← distance.dot distance, distance)

/-- What is known at zero, with a Jacobian of a quarter. -/
def atZero : LineSearchOptions Unit Exact (Tree Unit Exact) where
  initStepSize := real 1
  vector := .scalar (real (-3))
  operator := some (.ofFunction (fun t => .ok (t.scale (real (1 / 4)))) (.scalar 0) (.scalar 0) {})
  objective := real 9
  aux := .scalar (real (-3))
  gaussNewton := true

/-- The trial at a step size. -/
def overshootTrial (t : ℝ) : Trial Unit Exact (Tree Unit Exact) :=
  ⟨.scalar (real (t * 12)), real ((t * 12 - 3) * (t * 12 - 3)), .scalar (real (t * 12 - 3)), real t⟩

theorem halvings_eq (maxSteps : Nat) :
    halvings maxSteps = ⟨real (1 / 2), real (1 / 10), real 1, maxSteps⟩ := by
  rw [halvings, standard, half_eq, tenth_eq]
  rfl

theorem stepSizeAt_halvings (maxSteps j : Nat) :
    (halvings maxSteps).stepSizeAt (real 1) j = real ((1 / 2) ^ j) := by
  induction j with
  | zero => rw [pow_zero]; rfl
  | succ j ih => rw [stepSizeAt, ih, halvings_eq, real_mul, pow_succ]

theorem sufficient_halvings (maxSteps : Nat) (change f : ℝ) :
    (halvings maxSteps).sufficient (real 9) (some (real change)) (real f) = true ↔
      f ≤ 9 + 1 / 10 * change := by
  rw [halvings_eq]
  exact decide_eq_true_iff

theorem dot_scalar (x y : ℝ) :
    (Tree.scalar (real x) : Tree Unit Exact).dot (.scalar (real y)) = .ok (real (x * y)) := by
  have hdot : (Tree.scalar (real x) : Tree Unit Exact).dot (.scalar (real y)) =
      .ok (real 0 + real x * real y) := rfl
  rw [hdot, real_mul, real_add, zero_add]

theorem squareFromThree_scalar (x : ℝ) :
    squareFromThree (.scalar (real x)) = .ok (real ((x - 3) * (x - 3)), .scalar (real (x - 3))) := by
  have hsub : (Tree.scalar (real x) : Tree Unit Exact).sub (.scalar (real 3)) =
      .ok (.scalar (real x - real 3)) := rfl
  simp only [squareFromThree, hsub, Outcome.ok_bind, real_sub, dot_scalar, Outcome.pure_eq_ok]

theorem overshoot_trialAt {search : Backtracking Exact}
    {options : LineSearchOptions Unit Exact (Tree Unit Exact)} {j : Nat} {t : ℝ}
    (hsize : search.stepSizeAt options.initStepSize j = real t) :
    search.TrialAt squareFromThree overshoot (.scalar (real 0)) options j (.scalar (real (t * 12)))
      (overshootTrial t) where
  stepSize := hsize.symm
  compute := rfl
  add := by
    have hadd : (Tree.scalar (real 0) : Tree Unit Exact).add (.scalar (real (t * 12))) =
        .ok (.scalar (real 0 + real (t * 12))) := rfl
    rw [hadd, real_add, zero_add]
    rfl
  objective := squareFromThree_scalar _

/-- A step of length `d` has the image `d / 4`, so the change is predicted to be `-3 d / 2`. -/
theorem predictedChange_atZero (d : ℝ) :
    atZero.predictedChange (.scalar (real d)) = .ok (some (real (2 * (-3 * (1 / 4 * d))))) := by
  have hchange : atZero.predictedChange (.scalar (real d)) = (do
      return some (Scalar.ofNat 2 *
        (← (Tree.scalar (real (-3)) : Tree Unit Exact).dot (.scalar (real (1 / 4 * d)))))) := rfl
  rw [hchange, dot_scalar]
  rfl

theorem overshoot_acceptsAt_iff (maxSteps j : Nat) :
    (halvings maxSteps).AcceptsAt squareFromThree overshoot (.scalar (real 0)) atZero j
        (overshootTrial ((1 / 2) ^ j)) ↔
      ((1 / 2 : ℝ) ^ j * 12 - 3) * ((1 / 2) ^ j * 12 - 3) ≤
        9 + 1 / 10 * (2 * (-3 * (1 / 4 * ((1 / 2) ^ j * 12)))) := by
  rw [← sufficient_halvings maxSteps]
  constructor
  · rintro ⟨diff, htrial, -, hlow⟩
    obtain ⟨rfl, -⟩ := htrial.unique (overshoot_trialAt (stepSizeAt_halvings maxSteps j))
    obtain ⟨predicted, hpredicted, hlow⟩ := lowEnough_iff.mp hlow
    cases (predictedChange_atZero _).symm.trans hpredicted
    exact hlow
  · intro hlow
    exact ⟨_, overshoot_trialAt (stepSizeAt_halvings maxSteps j), rfl,
      lowEnough_iff.mpr ⟨_, predictedChange_atZero _, hlow⟩⟩

/-- The first two trials of an overshooting descent are passed over. -/
theorem overshoot_passesAt (maxSteps : Nat) {j : Nat} (hj : j < 2) :
    (halvings maxSteps).PassesAt squareFromThree overshoot (.scalar (real 0)) atZero j
      (overshootTrial ((1 / 2) ^ j)) := by
  refine ⟨⟨_, overshoot_trialAt (stepSizeAt_halvings maxSteps j),
    fun _ => ⟨_, predictedChange_atZero _⟩⟩, ?_⟩
  rw [overshoot_acceptsAt_iff]
  match j with
  | 0 => norm_num
  | 1 => norm_num

/-- From a quarter of the step the first trial is enough. -/
theorem overshoot_acceptsFirst (cap : ℝ) :
    AcceptsAt { halvings 20 with stepInit := real cap } squareFromThree overshoot (.scalar (real 0))
      { atZero with initStepSize := real (1 / 4) } 0 (overshootTrial (1 / 4)) := by
  refine ⟨_, overshoot_trialAt rfl, rfl,
    lowEnough_iff.mpr ⟨_, predictedChange_atZero (1 / 4 * 12), ?_⟩⟩
  exact (sufficient_halvings 20 _ _).mpr (by norm_num)

/-- Halving a step to twelve goes from zero to six and from there to three, which is the first
acceptable trial. From a quarter of the step it is the very first one; then the next search starts from
one half, or from the cap if that is lower. -/
theorem search_endsAtFirst_overshoot :
    Scalar.isFinite atZero.objective = true ∧
      (halvings 20).toLineSearch.search squareFromThree overshoot (.scalar (real 0)) atZero true =
        .ok ⟨.scalar (real ((1 / 2) ^ 2 * 12)), .successful, ⟨real ((1 / 2) ^ 2), 3⟩,
          .scalar (real ((1 / 2) ^ 2 * 12 - 3))⟩ ∧
      ∀ cap ∈ [(1 / 3 : ℝ), 2 / 3],
        (toLineSearch { halvings 20 with stepInit := real cap }).search squareFromThree overshoot
            (.scalar (real 0)) { atZero with initStepSize := real (1 / 4) } false =
          .ok ⟨.scalar (real (1 / 4 * 12)), .successful, ⟨real (min (1 / 2) cap), 1⟩,
            .scalar (real (1 / 4 * 12 - 3))⟩ := by
  have hpresent : Scalar.isFinite atZero.objective = true := rfl
  have haccepts : (halvings 20).AcceptsAt squareFromThree overshoot (.scalar (real 0)) atZero 2
      (overshootTrial ((1 / 2) ^ 2)) := by
    rw [overshoot_acceptsAt_iff]
    norm_num
  have hends := (search_endsAtFirst (halvings 20) squareFromThree overshoot (.scalar (real 0)) atZero
    true hpresent).1
  have hfound := hends.eq_ok 2 (by decide) _ haccepts fun j hj =>
    ⟨⟨_, (overshoot_passesAt 20 hj).1⟩, fun _ => (overshoot_passesAt 20 hj).not_acceptsAt⟩
  have hsize : (halvings 20).stepSizeAt atZero.initStepSize 2 = real ((1 / 2) ^ 2) :=
    stepSizeAt_halvings 20 2
  rw [if_neg two_ne_zero, hsize] at hfound
  refine ⟨hpresent, hfound, fun cap _ => ?_⟩
  have hfirst := (search_endsAtFirst { halvings 20 with stepInit := real cap } squareFromThree overshoot
    (.scalar (real 0)) { atZero with initStepSize := real (1 / 4) } false hpresent).1.eq_ok 0
    (Nat.succ_pos 19) _ (overshoot_acceptsFirst cap) fun j hj => absurd hj (Nat.not_lt_zero j)
  have hquotient : real (1 / 4) / (halvings 20).decreaseFactor = real (1 / 2) := by
    rw [halvings_eq, real_div _ (by norm_num)]
    norm_num
  have hnext : (if Scalar.isNaN (real cap) || Scalar.lt (real (1 / 2)) (real cap) then real (1 / 2)
      else real cap) = real (min (1 / 2) cap) := min_real (1 / 2) cap
  rw [if_pos rfl, hquotient, hnext] at hfirst
  exact hfirst

end

end Overshoot

end Backtracking

end LeastSquares
