import LeastSquares.Proofs.Iteration.Trajectory

/-!
# Solvers that step alike where it counts

Two solvers may differ in their steps and still make the same run. It is enough that they start and
stop alike, and that their steps agree at the points and states where something holds that the start
brings about and every such step keeps. Then the two visit the same iterates, and a solve with one is
the solve with the other, whatever way it ends (`StepsLike.solve`).
-/

namespace LeastSquares.IterativeSolver

variable {κ α Aux State : Type}

/-- The solvers start and stop alike, and they step alike wherever something holds that is true at the
start and that these steps keep. -/
structure StepsLike (other solver : IterativeSolver κ α Aux State) (residual : Residual κ α Aux)
    (tags : Tags) (y : Tree κ α) (holds : Tree κ α → State → Prop) : Prop where
  start : other.start residual tags y = solver.start residual tags y
  stop : ∀ point state, other.stop residual tags point state = solver.stop residual tags point state
  step : ∀ point state, holds point state →
    other.step residual tags point state = solver.step residual tags point state
  holds_start : ∀ state, solver.start residual tags y = .ok state → holds y state
  holds_step : ∀ point state point' state' aux, holds point state →
    solver.step residual tags point state = .ok (point', state', aux) → holds point' state'

namespace StepsLike

variable {other solver : IterativeSolver κ α Aux State} {residual : Residual κ α Aux} {tags : Tags}
  {y : Tree κ α} {holds : Tree κ α → State → Prop}
  (h : StepsLike other solver residual tags y holds)

include h

theorem advance {it : Iterate κ α Aux State} (hit : holds it.point it.state) :
    other.advance residual tags it = solver.advance residual tags it := by
  rw [IterativeSolver.advance, IterativeSolver.advance, h.step _ _ hit]

theorem holds_advance {it it' : Iterate κ α Aux State} (hit : holds it.point it.state)
    (hadvance : solver.advance residual tags it = .ok it') : holds it'.point it'.state := by
  obtain ⟨point, state, aux, hstep, rfl⟩ := advance_eq_ok.mp hadvance
  exact h.holds_step _ _ _ _ _ hit hstep

/-- What the steps keep holds at every iterate. -/
theorem holds_iterateAt (k : Nat) :
    ∀ it, solver.iterateAt residual tags y k = .ok it → holds it.point it.state := by
  induction k with
  | zero =>
      intro it hit
      obtain ⟨state, hstart, rfl⟩ := iterateAt_zero_eq_ok.mp hit
      exact h.holds_start state hstart
  | succ k ih =>
      intro it hit
      obtain ⟨before, hbefore, hadvance⟩ := iterateAt_succ_eq_ok.mp hit
      exact h.holds_advance (ih before hbefore) hadvance

/-- The two solvers visit the same iterates. -/
theorem iterateAt (k : Nat) :
    other.iterateAt residual tags y k = solver.iterateAt residual tags y k := by
  induction k with
  | zero => simp only [IterativeSolver.iterateAt, h.start]
  | succ k ih =>
      rw [iterateAt_succ_eq_bind, iterateAt_succ_eq_bind, ih]
      cases hit : solver.iterateAt residual tags y k with
      | error failure => rfl
      | ok it => exact h.advance (h.holds_iterateAt k it hit)

/-- The induction is on what is left of the budget. -/
theorem iterate (budget : Nat) {it : Iterate κ α Aux State} (hit : holds it.point it.state) :
    other.iterate residual tags budget it = solver.iterate residual tags budget it := by
  induction budget generalizing it with
  | zero => simp only [IterativeSolver.iterate, h.stop]
  | succ budget ih =>
      simp only [IterativeSolver.iterate, h.stop, h.advance hit]
      cases hadvance : solver.advance residual tags it with
      | error failure => rfl
      | ok it' =>
          simp only [Outcome.ok_bind]
          rw [ih (h.holds_advance hit hadvance)]

/-- **The same run.** A solve with one of the solvers is the solve with the other. -/
theorem solve (maxSteps : Nat) (throwing : Bool) :
    other.solve residual y ⟨maxSteps, throwing, tags⟩ =
      solver.solve residual y ⟨maxSteps, throwing, tags⟩ := by
  unfold IterativeSolver.solve
  rw [h.start]
  cases hstart : solver.start residual tags y with
  | error fault => rfl
  | ok state =>
      simp only [Outcome.liftM_eq_toOutcome, Checked.toOutcome_ok, Outcome.ok_bind]
      rw [h.iterate maxSteps (h.holds_start state hstart)]

end StepsLike

end LeastSquares.IterativeSolver
