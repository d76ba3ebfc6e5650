import LeastSquares.Iteration.Basic

/-!
# Replaying recorded steps

A solver that does not look at the residual but replays a script. Its state is the number of steps
taken, which picks the cue; past the end of the script the last cue is played again.
-/

namespace LeastSquares

variable {κ α Aux : Type}

/-- What the solver plays at one state. -/
structure Cue (κ α : Type) where
  done : Bool := false
  status : Status := .successful
  /-- The next point, or the error of the step; a cue may be without it if no step is taken from it. -/
  next : Option (Except Error (Tree κ α))

namespace Cue

/-- The cue at a state. -/
def pick (script : List (Cue κ α)) (state : Nat) : Checked (Cue κ α) :=
  match script[state]? with
  | some cue => .ok cue
  | none =>
      match script.getLast? with
      | some cue => .ok cue
      | none => .error (.outOfRange state 0)

end Cue

namespace IterativeSolver

/-- The solver that replays a script. -/
def replay (script : List (Cue κ α)) : IterativeSolver κ α Aux Nat where
  start _ _ _ := .ok 0
  step residual _ _ state := do
    let cue ← Checked.toOutcome (Cue.pick script state)
    match cue.next with
    | none => .error (.broken (.outOfRange state script.length))
    | some (.error error) => Outcome.report error
    | some (.ok y) => return (y, state + 1, ← Checked.toOutcome (residual.auxAt y))
  stop _ _ _ state := do
    let cue ← Cue.pick script state
    return (cue.done, cue.status)

end IterativeSolver

end LeastSquares
