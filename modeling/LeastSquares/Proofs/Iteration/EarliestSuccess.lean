import LeastSquares.Dense.Kernels
import LeastSquares.Proofs.Iteration.Answers
import LeastSquares.Proofs.Iteration.Newton
import LeastSquares.Proofs.SpecialValues

/-!
# No success before the second step

The first state holds infinity for both objectives, and a step moves the later one to the place of the
earlier one. So before the first step and after it the earlier objective is still infinity. The test
compares the two objectives, and against infinity nothing is settled: the difference is no number or
infinite, and neither is below any tolerance, be it infinite or no number itself. What the test finds
of the point does not matter, and an empty tree, which is settled at once, is no exception.
-/

namespace LeastSquares

variable {κ α Aux : Type} [Scalar α] [Scalar.LawfulInfinity α]

/-- Against an objective that is not known yet nothing is settled. -/
theorem objectiveSettled_of_unknown (tolerance : Tolerance α) (f : α) :
    objectiveSettled tolerance f Scalar.infinity = false := by
  unfold objectiveSettled
  rcases Scalar.LawfulInfinity.sub_infinity f with hnan | hinfinite
  · exact Scalar.LawfulNaN.lt_eq_false _ (Scalar.LawfulNaN.isNaN_abs hnan)
  · rw [hinfinite, Scalar.LawfulInfinity.abs_neg_infinity]
    exact Scalar.LawfulInfinity.infinity_lt _

namespace GaussNewton

variable {method : GaussNewton κ α Aux} {residual : Residual κ α Aux} {tags : Tags} {y : Tree κ α}

omit [Scalar.LawfulInfinity α] in
/-- Up to the first step the earlier objective is not known. -/
theorem previous_of_lt_two {k : Nat} (hk : k < 2) {it : Iterate κ α Aux (GaussNewtonState κ α)}
    (hit : method.toSolver.iterateAt residual tags y k = .ok it) :
    it.state.previous = Scalar.infinity := by
  match k with
  | 0 =>
      obtain ⟨state, hstart, rfl⟩ := IterativeSolver.iterateAt_zero_eq_ok.mp hit
      obtain rfl := Except.ok.inj hstart
      rfl
  | 1 =>
      obtain ⟨before, hbefore, hadvance⟩ := IterativeSolver.iterateAt_succ_eq_ok.mp hit
      obtain ⟨y', state', aux, hstep, rfl⟩ := IterativeSolver.advance_eq_ok.mp hadvance
      obtain ⟨linear, found, diff, -, -, -, -, -, rfl⟩ := step_eq_ok.mp hstep
      obtain ⟨state, hstart, rfl⟩ := IterativeSolver.iterateAt_zero_eq_ok.mp hbefore
      obtain rfl := Except.ok.inj hstart
      rfl

/-- As long as the earlier objective is not known the test does not see success. -/
theorem stop_ne_success {state : GaussNewtonState κ α} (h : state.previous = Scalar.infinity) :
    method.stop y state ≠ .ok (true, .successful) := by
  intro hstop
  unfold stop stopping at hstop
  split at hstop
  · obtain ⟨settled, -, hdone⟩ := Outcome.bind_eq_ok.mp hstop
    rw [h, objectiveSettled_of_unknown, Bool.and_false] at hdone
    cases hdone
  · rename_i hfails
    obtain ⟨-, hstatus⟩ := Prod.mk.inj (Except.ok.inj hstop)
    exact hfails ((Status.isSuccessful_iff _).mpr hstatus)

/-- **No success before the second step.** Whatever the descent, the search, the norm and the
tolerances are, the test sees no success before two steps have been made, wherever the run goes; and a
solve that answers success has made at least two steps. -/
theorem two_le_numSteps (method : GaussNewton κ α Aux) (residual : Residual κ α Aux) (y : Tree κ α)
    (config : Config) :
    (∀ k it, method.toSolver.iterateAt residual config.tags y k = .ok it →
        method.stop it.point it.state = .ok (true, .successful) → 2 ≤ k) ∧
      ∀ solution, method.toSolver.solve residual y config = .ok solution →
        solution.status = .successful → 2 ≤ solution.numSteps := by
  have hsees (k : Nat) (it : Iterate κ α Aux (GaussNewtonState κ α))
      (hit : method.toSolver.iterateAt residual config.tags y k = .ok it)
      (hstop : method.stop it.point it.state = .ok (true, .successful)) : 2 ≤ k := by
    by_contra hlt
    exact stop_ne_success (previous_of_lt_two (Nat.lt_of_not_le hlt) hit) hstop
  refine ⟨hsees, fun solution hsolution hsuccess => ?_⟩
  obtain ⟨it, hfirst⟩ := stopsFirstAt_of_success hsolution hsuccess
  exact hsees _ it hfirst.reached hfirst.stops

/-- Twice the point, less six, in double precision. -/
def doubleLine : Residual Unit Float Unit where
  value t := .ok (t.map fun x => Scalar.ofNat 2 * x - Scalar.ofNat 6, ())
  tangent _ v := .ok (v.scale (Scalar.ofNat 2))

/-- Full steps in double precision, with an infinite tolerance. -/
def doubleMethod : GaussNewton Unit Float Unit := plain ⟨0, Scalar.infinity⟩

/-- A run is told by its status and its count, which can be compared. -/
theorem exists_of_doubleMethod {y : Tree Unit Float}
    (h : (doubleMethod.toSolver.solve doubleLine y {}).toOption.map
      (fun solution => (solution.status, solution.numSteps)) = some (.successful, 2)) :
    ∃ solution, doubleMethod.toSolver.solve doubleLine y {} = .ok solution ∧
      solution.status = .successful ∧ solution.numSteps = 2 := by
  cases hsolve : doubleMethod.toSolver.solve doubleLine y {} with
  | error failure =>
      rw [hsolve] at h
      cases h
  | ok solution =>
      rw [hsolve] at h
      obtain ⟨hstatus, hcount⟩ := Prod.mk.inj (Option.some.inj h)
      exact ⟨solution, rfl, hstatus, hcount⟩

/-- With an infinite tolerance double precision ends in success after two steps, on a line as well as
with nothing to fit, and not earlier. -/
theorem two_le_numSteps_double :
    (∃ solution, doubleMethod.toSolver.solve doubleLine (.scalar 0) {} = .ok solution ∧
        solution.status = .successful ∧ solution.numSteps ≤ 2 ∧ 2 ≤ solution.numSteps) ∧
      ∃ solution, doubleMethod.toSolver.solve doubleLine (.tuple []) {} = .ok solution ∧
        solution.status = .successful ∧ solution.numSteps ≤ 2 ∧ 2 ≤ solution.numSteps := by
  obtain ⟨line, hline, hstatus, hcount⟩ := @exists_of_doubleMethod (.scalar 0) (by decide +kernel)
  obtain ⟨empty, hempty, hstatus', hcount'⟩ := @exists_of_doubleMethod (.tuple []) (by decide +kernel)
  exact ⟨⟨line, hline, hstatus, hcount.le,
      (two_le_numSteps doubleMethod doubleLine (.scalar 0) {}).2 line hline hstatus⟩,
    ⟨empty, hempty, hstatus', hcount'.le,
      (two_le_numSteps doubleMethod doubleLine (.tuple []) {}).2 empty hempty hstatus'⟩⟩

end GaussNewton

end LeastSquares
