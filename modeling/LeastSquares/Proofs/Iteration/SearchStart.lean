import LeastSquares.Proofs.Exact.BacktrackingRun
import LeastSquares.Proofs.Iteration.FirstTest
import LeastSquares.Proofs.LineSearch.Ends
import LeastSquares.Proofs.Scaling

/-!
# Where the searches of a run start

Backtracking caps the step size that an immediate success leaves to the next search. Every other end of
a search leaves a step size that it has tried, and so no larger one than it started from. So a run whose
searches start at most at the cap goes on like that, and no search ever starts above both the cap and
one, which is where every run starts its first search.

The cap itself is not looked at before the first search. A cap below one therefore does not bound the
step sizes that searches start from: it is a bound for all of them exactly when it is at least one
(`search_starts_below_cap_iff`).
-/

namespace LeastSquares

open Scalar

variable {κ α Aux : Type} [Scalar α]

/-- The parameters of backtracking that a search can work with: a factor that shrinks, and a cap. -/
structure Backtracking.IsProper (search : Backtracking α) : Prop where
  factor_pos : lt 0 search.decreaseFactor = true
  factor_lt_one : lt search.decreaseFactor 1 = true
  cap_pos : lt 0 search.stepInit = true

/-- A step size that a search may leave to the next one: not below zero, and not above the one it
started from itself unless it is not above the cap. -/
structure Backtracking.MayLeave (search : Backtracking α) (start stepSize : α) : Prop where
  nonneg : le 0 stepSize = true
  le_start_or_cap : le stepSize start = true ∨ le stepSize search.stepInit = true

section Search

variable [LawfulScaling α] {search : Backtracking α}

/-- Of two scalars that are at least zero, the smaller one is so too, and at most the second. -/
theorem min_le_right {x y : α} (hx : le 0 x = true) (hy : le 0 y = true) :
    le 0 (Scalar.min x y) = true ∧ le (Scalar.min x y) y = true := by
  unfold Scalar.min
  rw [LawfulScaling.isNaN_eq_false hy, Bool.false_or]
  by_cases hlt : lt x y = true
  · rw [if_pos hlt]
    exact ⟨hx, LawfulScaling.le_of_lt hlt⟩
  · rw [if_neg hlt]
    exact ⟨hy, LawfulScaling.le_self hy⟩

/-- The first trial leaves a step size under the cap, every later one its own. -/
theorem nextInit_mayLeave (hproper : search.IsProper) {start stepSize : α}
    (hnonneg : le 0 stepSize = true) (hle : le stepSize start = true) (trial : Nat) :
    search.MayLeave start (search.nextInit trial stepSize) := by
  unfold Backtracking.nextInit
  by_cases htrial : trial = 0
  · rw [if_pos htrial]
    have hquotient := LawfulScaling.div_nonneg hnonneg hproper.factor_pos hproper.factor_lt_one
    have hcap := LawfulScaling.le_of_lt hproper.cap_pos
    have hmin := min_le_right hquotient hcap
    exact ⟨hmin.1, .inr hmin.2⟩
  · rw [if_neg htrial]
    exact ⟨hnonneg, .inl hle⟩

variable {objective : Tree κ α → Checked (α × Aux)} {descent : Descent κ α} {y : Tree κ α}
  {options : LineSearchOptions κ α Aux} {found : LineSearchSolution κ α Aux}

/-- The induction is on the trials that are left. Neither the step size of the present trial nor that
of the best one is above the one that the search started from. -/
theorem trials_mayLeave (hproper : search.IsProper)
    (hstart : le 0 options.initStepSize = true) (remaining : Nat) :
    ∀ (trial : Nat) (stepSize : α) (best : Option (Trial κ α Aux)),
      le 0 stepSize = true → le stepSize options.initStepSize = true →
      (∀ earlier ∈ best, le 0 earlier.stepSize = true ∧
        le earlier.stepSize options.initStepSize = true) →
      search.trials objective descent y options remaining trial stepSize best = .ok found →
      search.MayLeave options.initStepSize found.state.nextInit := by
  have hstays : search.MayLeave options.initStepSize options.initStepSize :=
    ⟨hstart, .inl (LawfulScaling.le_self hstart)⟩
  induction remaining with
  | zero =>
      intro trial stepSize best _ _ hbest hfound
      cases hfound
      cases best with
      | none => exact hstays
      | some earlier =>
          obtain ⟨hnonneg, hle⟩ := hbest earlier rfl
          exact ⟨hnonneg, .inl hle⟩
  | succ remaining ih =>
      intro trial stepSize best hnonneg hle hbest hfound
      have hnonneg' := LawfulScaling.mul_nonneg hnonneg hproper.factor_pos hproper.factor_lt_one
      have hle' := LawfulScaling.le_trans
        (LawfulScaling.mul_le hnonneg hproper.factor_pos hproper.factor_lt_one) hle
      obtain ⟨step, -, hrest⟩ := Outcome.bind_eq_ok.mp hfound
      by_cases hsuccess : step.status.isSuccessful = true
      · rw [if_pos hsuccess] at hrest
        obtain ⟨value, -, hrest⟩ := Outcome.bind_eq_ok.mp hrest
        obtain ⟨⟨f, aux⟩, -, hrest⟩ := Outcome.bind_eq_ok.mp hrest
        dsimp only at hrest
        by_cases hfinite : isFinite f = true
        · rw [if_pos hfinite] at hrest
          obtain ⟨predicted, -, hrest⟩ := Outcome.bind_eq_ok.mp hrest
          split at hrest
          · cases hrest
            exact nextInit_mayLeave hproper hnonneg hle trial
          · exact ih _ _ _ hnonneg' hle'
              (Backtracking.forall_mem_better hbest ⟨hnonneg, hle⟩) hrest
        · rw [if_neg hfinite] at hrest
          exact ih _ _ _ hnonneg' hle' hbest hrest
      · rw [if_neg hsuccess] at hrest
        cases hrest
        exact hstays

theorem attempt_mayLeave (hproper : search.IsProper) (hstart : le 0 options.initStepSize = true)
    (h : search.attempt objective descent y options = .ok found) :
    search.MayLeave options.initStepSize found.state.nextInit := by
  unfold Backtracking.attempt at h
  have hself := LawfulScaling.le_self hstart
  split at h
  · exact trials_mayLeave hproper hstart _ _ _ none hstart hself (fun _ hnone => nomatch hnone) h
  · cases h
    exact ⟨hstart, .inl hself⟩

end Search

namespace GaussNewton

/-- A run makes a search after `k` steps, and the search starts from a step size. -/
def SearchStartsFrom (method : GaussNewton κ α Aux) (residual : Residual κ α Aux) (tags : Tags)
    (y : Tree κ α) (k : Nat) (start : α) : Prop :=
  (∀ j ≤ k, method.toSolver.GoesOnAt residual tags y j) ∧
    ∃ it linear, method.toSolver.iterateAt residual tags y k = .ok it ∧
      residual.linearize it.point = .ok linear ∧
      start = (searchOptions linear tags it.point it.state.stepSize).initStepSize

section Run

variable {tolerance : Tolerance α} {norm : Norm α} {descent : Descent κ α}
  {search : Backtracking α} {residual : Residual κ α Aux} {tags : Tags} {y y' : Tree κ α}
  {state state' : GaussNewtonState κ α} {aux : Aux} {k : Nat}
  {it it' : Iterate κ α Aux (GaussNewtonState κ α)}

section Steps

variable [LawfulScaling α]

theorem step_mayLeave (hproper : search.IsProper) (hstart : le 0 state.stepSize = true)
    (h : (withSearch tolerance norm descent (.backtracking search)).step residual tags y state =
      .ok (y', state', aux)) :
    search.MayLeave state.stepSize state'.stepSize := by
  obtain ⟨linear, found, diff, -, hsearch, -, -, -, rfl⟩ := step_eq_ok.mp h
  have hattempt := (StandardSearch.search_backtracking ..).symm.trans hsearch
  exact @attempt_mayLeave κ α Aux _ _ search _ _ _ (searchOptions linear tags y state.stepSize) found
    hproper hstart hattempt

/-- Every step size of a run is at least zero. -/
theorem stepSize_nonneg (hproper : search.IsProper) (k : Nat) :
    ∀ it, (withSearch tolerance norm descent (.backtracking search)).toSolver.iterateAt residual tags
        y k = .ok it → le 0 it.state.stepSize = true := by
  induction k with
  | zero =>
      intro it hit
      obtain ⟨state, hstart, rfl⟩ := IterativeSolver.iterateAt_zero_eq_ok.mp hit
      cases hstart
      exact LawfulScaling.zero_le_one
  | succ k ih =>
      intro it hit
      obtain ⟨before, hbefore, -⟩ := IterativeSolver.iterateAt_succ_eq_ok.mp hit
      obtain ⟨aux, hstep, -⟩ := IterativeSolver.step_of_iterateAt hbefore hit
      exact (step_mayLeave hproper (ih before hbefore) hstep).nonneg

/-- Consecutive iterates hold a step size and one that its search may leave. -/
theorem iterateAt_mayLeave (hproper : search.IsProper)
    (hit : (withSearch tolerance norm descent (.backtracking search)).toSolver.iterateAt residual tags
      y k = .ok it)
    (hit' : (withSearch tolerance norm descent (.backtracking search)).toSolver.iterateAt residual
      tags y (k + 1) = .ok it') :
    search.MayLeave it.state.stepSize it'.state.stepSize := by
  obtain ⟨aux, hstep, -⟩ := IterativeSolver.step_of_iterateAt hit hit'
  exact step_mayLeave hproper (stepSize_nonneg hproper k it hit) hstep

/-- No step size of a run is above both the cap and one. -/
theorem stepSize_le_cap_or_one (hproper : search.IsProper) (k : Nat) :
    ∀ it, (withSearch tolerance norm descent (.backtracking search)).toSolver.iterateAt residual tags
        y k = .ok it →
      le it.state.stepSize search.stepInit = true ∨ le it.state.stepSize 1 = true := by
  induction k with
  | zero =>
      intro it hit
      obtain ⟨state, hstart, rfl⟩ := IterativeSolver.iterateAt_zero_eq_ok.mp hit
      cases hstart
      exact .inr (LawfulScaling.le_self LawfulScaling.zero_le_one)
  | succ k ih =>
      intro it hit
      obtain ⟨before, hbefore, -⟩ := IterativeSolver.iterateAt_succ_eq_ok.mp hit
      rcases (iterateAt_mayLeave hproper hbefore hit).le_start_or_cap with hle | hcap
      · exact (ih before hbefore).imp (LawfulScaling.le_trans hle) (LawfulScaling.le_trans hle)
      · exact .inl hcap

/-- From a step size under the cap on, all are. -/
theorem stepSize_le_cap (hproper : search.IsProper)
    (hit : (withSearch tolerance norm descent (.backtracking search)).toSolver.iterateAt residual tags
      y k = .ok it)
    (hcap : le it.state.stepSize search.stepInit = true) (n : Nat) :
    ∀ it', (withSearch tolerance norm descent (.backtracking search)).toSolver.iterateAt residual
        tags y (k + n) = .ok it' → le it'.state.stepSize search.stepInit = true := by
  induction n with
  | zero =>
      intro it' hit'
      obtain rfl := Except.ok.inj (hit.symm.trans hit')
      exact hcap
  | succ n ih =>
      intro it' hit'
      obtain ⟨before, hbefore, -⟩ := IterativeSolver.iterateAt_succ_eq_ok.mp hit'
      rcases (iterateAt_mayLeave hproper hbefore hit').le_start_or_cap with hle | hcap'
      · exact LawfulScaling.le_trans hle (ih before hbefore)
      · exact hcap'

end Steps

/-- The first search of a run starts from one. -/
theorem searchStartsFrom_zero [LawfulNaN α] (method : GaussNewton κ α Aux)
    {linear : Linearization κ α Aux} (hlinear : residual.linearize y = .ok linear) :
    method.SearchStartsFrom residual tags y 0 1 := by
  refine ⟨fun j hj => ?_, _, linear, iterateAt_zero method residual tags y, hlinear, rfl⟩
  obtain rfl := Nat.le_zero.mp hj
  exact goesOn_start method residual tags y

end Run

/-- **Where the searches of a run start.** With a factor that shrinks and a cap above zero, no search of
a run starts above both the cap and one, and once a search has started at most at the cap, so do all
later ones. But the first search of a run starts from one, whatever the cap. So from a point at which
the residual can be linearized, the cap bounds the starts of all searches exactly when it is at least
one; the descent is arbitrary. -/
theorem search_starts_below_cap_iff [LawfulNaN α] [LawfulScaling α] (tolerance : Tolerance α)
    (norm : Norm α) (descent : Descent κ α) {search : Backtracking α} (hproper : search.IsProper)
    (residual : Residual κ α Aux) (tags : Tags) (y : Tree κ α) {linear : Linearization κ α Aux}
    (hlinear : residual.linearize y = .ok linear) :
    let method := withSearch tolerance norm descent (.backtracking search)
    (∀ k start, method.SearchStartsFrom residual tags y k start →
        le start search.stepInit = true ∨ le start 1 = true) ∧
      (∀ j k start start', j ≤ k → method.SearchStartsFrom residual tags y j start →
        method.SearchStartsFrom residual tags y k start' → le start search.stepInit = true →
        le start' search.stepInit = true) ∧
      ((∀ k start, method.SearchStartsFrom residual tags y k start →
        le start search.stepInit = true) ↔ le 1 search.stepInit = true) := by
  intro method
  refine ⟨?_, ?_, ?_, ?_⟩
  · rintro k start ⟨-, it, linear, hit, -, rfl⟩
    exact stepSize_le_cap_or_one hproper k it hit
  · rintro j k start start' hjk ⟨-, it, linear, hit, -, rfl⟩ ⟨-, it', linear', hit', -, rfl⟩ hcap
    obtain ⟨n, rfl⟩ := Nat.exists_eq_add_of_le hjk
    exact stepSize_le_cap hproper hit hcap n it' hit'
  · intro hall
    exact hall 0 1 (searchStartsFrom_zero method hlinear)
  · rintro hcap k start ⟨-, it, linear, hit, -, rfl⟩
    rw [← Nat.zero_add k] at hit
    exact stepSize_le_cap hproper (iterateAt_zero method residual tags y) hcap k it hit

end GaussNewton

section Halving

open Exact GaussNewton

theorem cappedHalving_isProper {cap : ℝ} (hcap : 0 < cap) : (cappedHalving cap).IsProper where
  factor_pos := by
    show Scalar.lt (real 0) Scalar.half = true
    rw [half_eq, lt_real, decide_eq_true one_half_pos]
  factor_lt_one := by
    show Scalar.lt Scalar.half (real 1) = true
    rw [half_eq, lt_real, decide_eq_true one_half_lt_one]
  cap_pos := decide_eq_true hcap

/-- The point as its own residual, in double precision. -/
def pointItself : Residual Unit Float Unit where
  value t := .ok (t, ())
  tangent _ v := .ok v

/-- Backtracking by halves in double precision, with a cap of one half. -/
def lowHalving : Backtracking Float := { Backtracking.standard with stepInit := 0.5 }

theorem lowHalving_isProper : lowHalving.IsProper where
  factor_pos := by decide +kernel
  factor_lt_one := by decide +kernel
  cap_pos := by decide +kernel

/-- On the square of the point less two, from two, the first search starts above a cap of one half;
under a cap of two no search ever starts above it. In double precision a cap of one half does not bound
the starts either, on the point itself from one. -/
theorem search_starts_below_cap_iff_halving :
    (¬∀ k start, SearchStartsFrom (withSearch ⟨real 0, real 1⟩ .max (NewtonDescent.toDescent {})
        (.backtracking (cappedHalving (1 / 2)))) squareLessTwo {} (.scalar (real 2)) k start →
        le start (real (1 / 2)) = true) ∧
      (∀ k start, SearchStartsFrom (withSearch ⟨real 0, real 1⟩ .max (NewtonDescent.toDescent {})
        (.backtracking (cappedHalving 2))) squareLessTwo {} (.scalar (real 2)) k start →
        le start (real 2) = true) ∧
      ¬∀ k start, SearchStartsFrom (withSearch ⟨0, 1⟩ .max (NewtonDescent.toDescent {})
        (.backtracking lowHalving)) pointItself {} (.scalar 1) k start → le start 0.5 = true := by
  obtain ⟨linear, hlinear, -⟩ := squareLessTwo_linear 2
  have hlow := (search_starts_below_cap_iff ⟨real 0, real 1⟩ .max (NewtonDescent.toDescent {})
    (cappedHalving_isProper one_half_pos) squareLessTwo {} (.scalar (real 2)) hlinear).2.2
  have hhigh := (search_starts_below_cap_iff ⟨real 0, real 1⟩ .max (NewtonDescent.toDescent {})
    (cappedHalving_isProper two_pos) squareLessTwo {} (.scalar (real 2)) hlinear).2.2
  have hlinear' : pointItself.linearize (.scalar 1) =
      .ok ⟨.scalar 1, pointItself.tangent (.scalar 1), ()⟩ := rfl
  have hdouble := (search_starts_below_cap_iff ⟨0, 1⟩ .max (NewtonDescent.toDescent {})
    lowHalving_isProper pointItself {} (.scalar 1) hlinear').2.2
  refine ⟨fun hall => ?_, hhigh.mpr (decide_eq_true one_le_two), mt hdouble.mp (by decide +kernel)⟩
  have hone : (1 : ℝ) ≤ 1 / 2 := of_decide_eq_true (hlow.mp hall)
  linarith

end Halving

end LeastSquares
