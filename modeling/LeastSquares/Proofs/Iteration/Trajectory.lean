import LeastSquares.Iteration.Basic
import LeastSquares.Proofs.Outcome

/-!
# The trajectory of a solver

The iterates of a solver are what its first state and repeated steps lead to, whatever the stopping
test says on the way and whoever takes the steps. The driver walks along this trajectory: it moves from
each iterate to the next one (`iterateAt_succ_eq_bind`), and as long as the test says to go on, a solve
with a budget is the same solve begun at a later iterate with what is then left of the budget
(`solve_eq_of_goesOn`). So the answer of a solve is settled by what happens at one iterate.
-/

namespace LeastSquares.IterativeSolver

variable {κ α Aux State : Type} (solver : IterativeSolver κ α Aux State)
  (residual : Residual κ α Aux) (tags : Tags) (y : Tree κ α)

/-- The iterate after a number of steps: what the last of them answered. An error of a step is a failure
at the point where the step began. -/
def iterateAt : Nat → Outcome (SolveFailure κ α) (Iterate κ α Aux State)
  | 0 => do
      let state ← solver.start residual tags y
      return ⟨y, state, none, 0⟩
  | k + 1 => do
      let it ← iterateAt k
      let (point, state, aux) ← (solver.step residual tags it.point it.state).mapReport
        fun error => ⟨error, it.point, k⟩
      return ⟨point, state, some aux, k + 1⟩

/-- After `k` steps the test says to go on. -/
def GoesOnAt (k : Nat) : Prop :=
  ∃ it status, solver.iterateAt residual tags y k = .ok it ∧
    solver.stop residual tags it.point it.state = .ok (false, status)

variable {solver residual tags y}

theorem iterateAt_zero_eq_ok {it : Iterate κ α Aux State} :
    solver.iterateAt residual tags y 0 = .ok it ↔
      ∃ state, solver.start residual tags y = .ok state ∧ ⟨y, state, none, 0⟩ = it := by
  simp [iterateAt, Outcome.bind_eq_ok]

/-- An iterate counts the steps that led to it. -/
theorem numSteps_of_iterateAt {k : Nat} {it : Iterate κ α Aux State}
    (h : solver.iterateAt residual tags y k = .ok it) : it.numSteps = k := by
  cases k with
  | zero =>
      obtain ⟨state, -, rfl⟩ := iterateAt_zero_eq_ok.mp h
      rfl
  | succ k =>
      obtain ⟨before, -, hrest⟩ := Outcome.bind_eq_ok.mp h
      obtain ⟨⟨point, state, aux⟩, -, hit⟩ := Outcome.bind_eq_ok.mp hrest
      cases hit
      rfl

/-- The driver moves from an iterate to the next one. -/
theorem iterateAt_succ {k : Nat} {it : Iterate κ α Aux State}
    (h : solver.iterateAt residual tags y k = .ok it) :
    solver.iterateAt residual tags y (k + 1) = solver.advance residual tags it := by
  have hcount := numSteps_of_iterateAt h
  rw [iterateAt, h, Outcome.ok_bind, advance, hcount]
  cases hstep : solver.step residual tags it.point it.state with
  | ok answer => rfl
  | error failure =>
      cases failure with
      | broken fault => rfl
      | reported error => rfl

theorem iterateAt_succ_eq_bind (k : Nat) :
    solver.iterateAt residual tags y (k + 1) =
      solver.iterateAt residual tags y k >>= solver.advance residual tags := by
  cases h : solver.iterateAt residual tags y k with
  | ok it => exact iterateAt_succ h
  | error failure =>
      rw [iterateAt, h]
      rfl

theorem iterateAt_succ_eq_ok {k : Nat} {it' : Iterate κ α Aux State} :
    solver.iterateAt residual tags y (k + 1) = .ok it' ↔
      ∃ it, solver.iterateAt residual tags y k = .ok it ∧
        solver.advance residual tags it = .ok it' := by
  rw [iterateAt_succ_eq_bind, Outcome.bind_eq_ok]

/-- A step that answers moves to the point and the state of its answer. -/
theorem advance_eq_ok {it it' : Iterate κ α Aux State} :
    solver.advance residual tags it = .ok it' ↔
      ∃ point state aux, solver.step residual tags it.point it.state = .ok (point, state, aux) ∧
        ⟨point, state, some aux, it.numSteps + 1⟩ = it' := by
  unfold advance
  split
  · rename_i point state aux h
    constructor
    · intro hit
      exact ⟨point, state, aux, h, Except.ok.inj hit⟩
    · rintro ⟨point', state', aux', hstep, rfl⟩
      cases h.symm.trans hstep
      rfl
  · rename_i fault h
    simp [h]
  · rename_i error h
    simp [h, Outcome.report]

/-- A step from an iterate leads to the next one. -/
theorem iterateAt_of_step {k : Nat} {it : Iterate κ α Aux State} {point : Tree κ α} {state : State}
    {aux : Aux} (h : solver.iterateAt residual tags y k = .ok it)
    (hstep : solver.step residual tags it.point it.state = .ok (point, state, aux)) :
    solver.iterateAt residual tags y (k + 1) = .ok ⟨point, state, some aux, it.numSteps + 1⟩ :=
  (iterateAt_succ h).trans (advance_eq_ok.mpr ⟨point, state, aux, hstep, rfl⟩)

/-- Consecutive iterates are the two ends of a step. -/
theorem step_of_iterateAt {k : Nat} {it it' : Iterate κ α Aux State}
    (h : solver.iterateAt residual tags y k = .ok it)
    (h' : solver.iterateAt residual tags y (k + 1) = .ok it') :
    ∃ aux, solver.step residual tags it.point it.state = .ok (it'.point, it'.state, aux) ∧
      it'.aux = some aux := by
  obtain ⟨point, state, aux, hstep, rfl⟩ := advance_eq_ok.mp ((iterateAt_succ h).symm.trans h')
  exact ⟨aux, hstep, rfl⟩

section Driving

variable {it : Iterate κ α Aux State}

/-- Where the test says stop, the driver ends with its status. -/
theorem iterate_of_stop {status : Status} (budget : Nat)
    (h : solver.stop residual tags it.point it.state = .ok (true, status)) :
    solver.iterate residual tags budget it = .ok (it, status) := by
  cases budget <;> simp [iterate, h]

/-- Where the test faults, the driver does. -/
theorem iterate_of_stop_fault {fault : Fault} (budget : Nat)
    (h : solver.stop residual tags it.point it.state = .error fault) :
    solver.iterate residual tags budget it = .error (.broken fault) := by
  cases budget <;> simp [iterate, h]

/-- Without a budget the driver ends where the test says to go on. -/
theorem iterate_zero_of_goesOn {status : Status}
    (h : solver.stop residual tags it.point it.state = .ok (false, status)) :
    solver.iterate residual tags 0 it = .ok (it, .maxStepsReached) := by
  simp [iterate, h]

/-- With a budget the driver takes a step where the test says to go on. -/
theorem iterate_succ_of_goesOn {status : Status} (budget : Nat)
    (h : solver.stop residual tags it.point it.state = .ok (false, status)) :
    solver.iterate residual tags (budget + 1) it =
      (do solver.iterate residual tags budget (← solver.advance residual tags it)) := by
  simp [iterate, h]

end Driving

/-- As long as the test says to go on, a solve is the same solve begun at a later iterate. -/
theorem solve_eq_of_goesOn {maxSteps k : Nat} {throwing : Bool} {it : Iterate κ α Aux State}
    (hk : k ≤ maxSteps) (hit : solver.iterateAt residual tags y k = .ok it)
    (hgo : ∀ j < k, solver.GoesOnAt residual tags y j) :
    solver.solve residual y ⟨maxSteps, throwing, tags⟩ =
      (do
        let last ← solver.iterate residual tags (maxSteps - k) it
        conclude residual throwing last.1 last.2) := by
  induction k generalizing it with
  | zero =>
      obtain ⟨state, hstart, rfl⟩ := iterateAt_zero_eq_ok.mp hit
      simp [solve, hstart]
  | succ k ih =>
      obtain ⟨before, hbefore, hstep⟩ := iterateAt_succ_eq_ok.mp hit
      obtain ⟨it', status, hit', hgoes⟩ := hgo k (Nat.lt_succ_self k)
      obtain rfl : it' = before := Except.ok.inj (hit'.symm.trans hbefore)
      rw [ih (by omega) hit' fun j hj => hgo j (by omega),
        show maxSteps - k = maxSteps - (k + 1) + 1 by omega,
        iterate_succ_of_goesOn _ hgoes, hstep]
      rfl

end LeastSquares.IterativeSolver
