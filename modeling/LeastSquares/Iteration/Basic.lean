import LeastSquares.Error
import LeastSquares.Dense.Strategy
import LeastSquares.Residual.Basic

/-!
# Driving an iterative solver

An iterative solver has a first state, a step, and a test that tells when to stop. The driver asks
the test before every step. It ends when the test says so, or when the budget of steps is spent, and
the test comes first: convergence at the last step counts as convergence. A step that errs ends the
solve with the last point that was reached.

A failing status is part of the answer, or an error if the configuration asks for failing statuses to
be thrown. The auxiliary output is the one of the last step; a solve without steps asks the residual.
-/

namespace LeastSquares

variable {κ α Aux State : Type}

/-- A solver that is driven one step at a time. Each part is told the residual and what is known
about its Jacobian. -/
structure IterativeSolver (κ α Aux State : Type) where
  /-- The state before the first step from a point. -/
  start : Residual κ α Aux → Tags → Tree κ α → Checked State
  /-- The next point, the next state, and the auxiliary output at the next point. -/
  step : Residual κ α Aux → Tags → Tree κ α → State → Outcome Error (Tree κ α × State × Aux)
  /-- Whether to stop at a point, and with what status. -/
  stop : Residual κ α Aux → Tags → Tree κ α → State → Checked (Bool × Status)

/-- How to drive a solver. -/
structure Config where
  maxSteps : Nat := 256
  /-- Whether a failing status is thrown as an error. -/
  throw : Bool := true
  /-- What is known about the Jacobian of the residual. -/
  tags : Tags := {}
deriving DecidableEq, Repr

namespace Config

/-- The configuration that is used unless another is asked for. -/
def standard : Config := {}

end Config

/-- The answer of a finished solve. -/
structure Solution (κ α Aux State : Type) where
  value : Tree κ α
  status : Status
  aux : Aux
  numSteps : Nat
  state : State

/-- Whether a solve converged. -/
def Solution.isSuccessful (solution : Solution κ α Aux State) : Bool :=
  solution.status.isSuccessful

/-- What is left of a solve that ended with an error. -/
structure SolveFailure (κ α : Type) where
  error : Error
  value : Tree κ α
  numSteps : Nat

/-- The failing status behind a failure, if there is one. -/
def SolveFailure.status? (failure : SolveFailure κ α) : Option Status := failure.error.status?

/-- A point of an iteration. -/
structure Iterate (κ α Aux State : Type) where
  point : Tree κ α
  state : State
  /-- The auxiliary output of the last step, if there was one. -/
  aux : Option Aux
  numSteps : Nat

namespace IterativeSolver

/-- One step from an iterate. An error of the step is a failure at that iterate. -/
def advance (solver : IterativeSolver κ α Aux State) (residual : Residual κ α Aux) (tags : Tags)
    (it : Iterate κ α Aux State) : Outcome (SolveFailure κ α) (Iterate κ α Aux State) :=
  match solver.step residual tags it.point it.state with
  | .ok (point, state, aux) => .ok ⟨point, state, some aux, it.numSteps + 1⟩
  | .error (.broken fault) => .error (.broken fault)
  | .error (.reported error) => Outcome.report ⟨error, it.point, it.numSteps⟩

/-- Step until the test says stop or the budget is spent: the last iterate, and how it ended. -/
def iterate (solver : IterativeSolver κ α Aux State) (residual : Residual κ α Aux) (tags : Tags) :
    (budget : Nat) → Iterate κ α Aux State →
      Outcome (SolveFailure κ α) (Iterate κ α Aux State × Status)
  | 0, it => do
      let (done, status) ← solver.stop residual tags it.point it.state
      return (it, if done then status else .maxStepsReached)
  | budget + 1, it => do
      let (done, status) ← solver.stop residual tags it.point it.state
      if done then return (it, status)
      else iterate solver residual tags budget (← solver.advance residual tags it)

/-- The answer at the last iterate. -/
def conclude (residual : Residual κ α Aux) (throwing : Bool) (it : Iterate κ α Aux State)
    (status : Status) : Outcome (SolveFailure κ α) (Solution κ α Aux State) :=
  if throwing && !status.isSuccessful then
    Outcome.report ⟨.solve status it.numSteps, it.point, it.numSteps⟩
  else do
    let aux ← match it.aux with
      | some aux => .ok aux
      | none => Checked.toOutcome (residual.auxAt it.point)
    return ⟨it.point, status, aux, it.numSteps, it.state⟩

/-- Minimise the sum of squares of a residual from a starting point. -/
def solve (solver : IterativeSolver κ α Aux State) (residual : Residual κ α Aux) (y : Tree κ α)
    (config : Config) : Outcome (SolveFailure κ α) (Solution κ α Aux State) := do
  let state ← solver.start residual config.tags y
  let (last, status) ←
    solver.iterate residual config.tags config.maxSteps ⟨y, state, none, 0⟩
  conclude residual config.throw last status

end IterativeSolver

end LeastSquares
