import LeastSquares.LineSearch.Basic

/-!
# Backtracking with sufficient decrease

The search tries a step, and as long as the trial does not decrease the objective enough it shrinks
the step size by a constant factor. A trial is enough when its objective is at most the present one
plus a fraction of the change that was predicted to first order; without a prediction it has to be
below the present one. A trial whose objective is not a finite number is never accepted.

When the trials run out, the search answers the best of them: the first one whose objective is
smallest among those that are finite. When the very first trial is accepted, the next search may
start from a larger step, up to a cap.
-/

namespace LeastSquares

variable {κ α Aux : Type} [Scalar α]

/-- Backtracking until the decrease is sufficient. -/
structure Backtracking (α : Type) where
  /-- What a step size is multiplied by after a trial that is not accepted. -/
  decreaseFactor : α
  /-- The fraction of the predicted change that a step has to reach. -/
  slope : α
  /-- The cap on the step size that an immediate success leaves to the next search. -/
  stepInit : α
  /-- How many trials a search makes. -/
  maxSteps : Nat
deriving Repr

/-- A trial step: where it leads, and what was found there. -/
structure Trial (κ α Aux : Type) where
  value : Tree κ α
  objective : α
  aux : Aux
  stepSize : α

namespace Backtracking

/-- Halving from full steps, with a tenth of the predicted change and at most twenty trials. -/
def standard : Backtracking α :=
  ⟨Scalar.half, 1 / Scalar.ofNat 10, 1, 20⟩

/-- Whether an objective is low enough, given the change that was predicted. -/
def sufficient (search : Backtracking α) (present : α) (predicted : Option α)
    (objective : α) : Bool :=
  match predicted with
  | some change => Scalar.le objective (present + search.slope * change)
  | none => Scalar.lt objective present

/-- The step size that the next search starts from, after the trial with this number was accepted. -/
def nextInit (search : Backtracking α) (trial : Nat) (stepSize : α) : α :=
  if trial = 0 then Scalar.min (stepSize / search.decreaseFactor) search.stepInit else stepSize

/-- The better of two trials; the earlier one unless the later one is below it. -/
def better (best : Option (Trial κ α Aux)) (trial : Trial κ α Aux) : Trial κ α Aux :=
  match best with
  | none => trial
  | some earlier => if Scalar.lt trial.objective earlier.objective then trial else earlier

/-- The better of two trials is one of the two. -/
theorem forall_mem_better {p : Trial κ α Aux → Prop} {best : Option (Trial κ α Aux)}
    {trial : Trial κ α Aux} (hbest : ∀ earlier ∈ best, p earlier) (h : p trial) :
    ∀ kept ∈ some (better best trial), p kept := by
  intro kept hkept
  obtain rfl := Option.some.inj hkept
  cases best with
  | none => exact h
  | some earlier =>
      unfold better
      dsimp only
      split
      · exact h
      · exact hbest earlier rfl

/-- The answer when the trials have run out. -/
def exhausted (y : Tree κ α) (options : LineSearchOptions κ α Aux)
    (best : Option (Trial κ α Aux)) (numSteps : Nat) : LineSearchSolution κ α Aux :=
  match best with
  | some trial => ⟨trial.value, .maxStepsReached, ⟨trial.stepSize, numSteps⟩, trial.aux⟩
  | none => .stay y options .lineSearchFailed numSteps

/-- The trials from number `trial` on, of which `remaining` are left. -/
def trials (search : Backtracking α) (objective : Tree κ α → Checked (α × Aux))
    (descent : Descent κ α) (y : Tree κ α) (options : LineSearchOptions κ α Aux) :
    (remaining trial : Nat) → α → Option (Trial κ α Aux) →
      Outcome Error (LineSearchSolution κ α Aux)
  | 0, _, _, best => .ok (exhausted y options best search.maxSteps)
  | remaining + 1, trial, stepSize, best => do
      let step ← descent.compute stepSize options.descentOptions
      if step.status.isSuccessful then
        let value ← y.add step.diff
        let (f, aux) ← objective value
        let smaller := stepSize * search.decreaseFactor
        if Scalar.isFinite f then
          let predicted ← options.predictedChange step.diff
          if search.sufficient options.objective predicted f then
            return ⟨value, .successful, ⟨search.nextInit trial stepSize, trial + 1⟩, aux⟩
          else
            trials search objective descent y options remaining (trial + 1) smaller
              (some (better best ⟨value, f, aux, stepSize⟩))
        else trials search objective descent y options remaining (trial + 1) smaller best
      else return .stay y options step.status (trial + 1)

/-- The search: no trial at all from a point whose objective is not a finite number. -/
def attempt (search : Backtracking α) (objective : Tree κ α → Checked (α × Aux))
    (descent : Descent κ α) (y : Tree κ α) (options : LineSearchOptions κ α Aux) :
    Outcome Error (LineSearchSolution κ α Aux) :=
  if Scalar.isFinite options.objective then
    search.trials objective descent y options search.maxSteps 0 options.initStepSize none
  else .ok (.stay y options .lineSearchFailed 0)

/-- Backtracking as a line search. -/
def toLineSearch (search : Backtracking α) : LineSearch κ α Aux where
  search objective descent y options throwing := do
    (← search.attempt objective descent y options).deliver throwing

end Backtracking

end LeastSquares
