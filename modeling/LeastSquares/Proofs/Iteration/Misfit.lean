import LeastSquares.Proofs.Dense.Admission
import LeastSquares.Proofs.Iteration.StepEnds
import LeastSquares.Proofs.Operator.UnitImages

/-!
# When a linear solver was set up wrongly

Newton's descent reports nothing but a system whose shape its linear solver does not admit. When a
descent succeeds instead, the shape is admitted. The shape is the same at every point of a run, as long
as the residual has the same number of leaves there, so a step that counts as successful certifies all
later systems. Numbers that are not finite hide the shape from the solver, and a backtracking search
may end before it asks for a system at all; but then the step has a failing status, and is the last.

So a linear solver that was set up wrongly is discovered at the starting point or never
(`solve_failure`).
-/

namespace LeastSquares

open LeastSquares.Tree

variable {κ α Aux : Type} [Scalar α]

/-- The ends of a computation on top of a dense solve: what it answers has a status. -/
inductive SystemEnds {β : Type} (status : β → Status) (admitted : Prop) : Outcome Error β → Prop
  | solved (answer : β) (h : admitted) (hstatus : status answer = .successful) :
      SystemEnds status admitted (.ok answer)
  | refused (answer : β) (cause : Dense.Cause) (h : Status.ofCause? cause = some (status answer)) :
      SystemEnds status admitted (.ok answer)
  | misfit (report : Dense.Report) (h : ¬admitted) :
      SystemEnds status admitted (.error (.reported (.linearSolver report)))
  | faulted (fault : Fault) : SystemEnds status admitted (.error (.broken fault))

section Solve

theorem ofCause?_eq_none_iff (cause : Dense.Cause) :
    Status.ofCause? cause = none ↔ cause.isNumeric = false := by
  cases cause <;> decide

theorem ofCause?_ne_maxStepsReached (cause : Dense.Cause) :
    Status.ofCause? cause ≠ some .maxStepsReached := by
  cases cause <;> decide

variable [Dense.Kernels α]

/-- The ends of a solve against the operator of a function, for a vector in its codomain. -/
theorem operatorSolve_ends (apply : Tree κ α → Checked (Tree κ α)) (domain : Tree κ α)
    (vector : Tree κ α) (tags : Tags) (strategy : Dense.Strategy) :
    SystemEnds LinearOperator.Solution.status (strategy.Admits vector.size domain.size tags)
      ((LinearOperator.ofFunction apply domain vector tags).solve vector strategy) := by
  unfold LinearOperator.solve LinearOperator.ofFunction
  dsimp only
  cases hmatrix : materialize apply domain vector with
  | error fault => exact .faulted fault
  | ok a =>
      obtain ⟨hrows, hcols⟩ := dims_of_materialize hmatrix
      have hfits : vector.leaves.length = a.nrows := by rw [leaves_length, hrows]
      have hsolve := Dense.solve_ends strategy tags hfits
      rw [hrows, hcols] at hsolve
      simp only [Outcome.liftM_eq_toOutcome, Checked.toOutcome_ok, Outcome.ok_bind]
      generalize Dense.solve strategy a vector.leaves tags = solved at hsolve
      cases hsolve with
      | answered x hadmits =>
          dsimp only
          cases domain.rebuild x with
          | ok value => exact .solved _ hadmits rfl
          | error fault => exact .faulted fault
      | refused report hrefused =>
          simp only [Outcome.report]
          cases hcause : Status.ofCause? report.cause with
          | some status => exact .refused _ report.cause hcause
          | none =>
              rcases hrefused with hnumeric | ⟨-, hadmits⟩
              · rw [(ofCause?_eq_none_iff _).mp hcause] at hnumeric
                cases hnumeric
              · exact .misfit report hadmits
      | faulted fault => exact .faulted fault

/-- The ends of Newton's descent at the linearization of a residual. -/
theorem compute_ends (descent : NewtonDescent α) (linear : Linearization κ α Aux) (tags : Tags)
    (y : Tree κ α) (init stepSize : α) :
    SystemEnds DescentStep.status
      (descent.linearSolver.Admits linear.value.size y.size tags)
      (descent.compute stepSize (GaussNewton.searchOptions linear tags y init).descentOptions) := by
  have hsolve := operatorSolve_ends linear.tangent y linear.value tags descent.linearSolver
  unfold NewtonDescent.compute NewtonDescent.direction
  simp only [LineSearchOptions.descentOptions, GaussNewton.searchOptions]
  generalize (LinearOperator.ofFunction linear.tangent y linear.value tags).solve linear.value
    descent.linearSolver = solved at hsolve
  cases hsolve with
  | solved solution hadmits hstatus => exact .solved _ hadmits hstatus
  | refused solution cause hcause => exact .refused _ cause hcause
  | misfit report hadmits => exact .misfit report hadmits
  | faulted fault => exact .faulted fault

end Solve

section Run

open GaussNewton

/-- On the trees of a skeleton a residual answers trees with this number of leaves. Nothing is asked of
its derivative. -/
def Residual.HasLeafCount (residual : Residual κ α Aux) (skeleton : Tree κ Unit) (m : Nat) : Prop :=
  ∀ t u aux, t.skeleton = skeleton → residual.value t = .ok (u, aux) → u.size = m

omit [Scalar α] in
theorem Residual.HasLeafCount.linearize {residual : Residual κ α Aux} {skeleton : Tree κ Unit}
    {m : Nat} (h : residual.HasLeafCount skeleton m) {y : Tree κ α} (hy : y.skeleton = skeleton)
    {linear : Linearization κ α Aux} (hlinear : residual.linearize y = .ok linear) :
    linear.value.size = m := by
  obtain ⟨⟨value, aux⟩, hvalue, heq⟩ := Outcome.bind_eq_ok.mp hlinear
  cases heq
  exact h y value aux hy hvalue

theorem stepStatus_eq_successful_iff (status : Status) :
    stepStatus status = .successful ↔ status = .successful ∨ status = .maxStepsReached := by
  cases status <;> decide

variable [Dense.Kernels α] {tolerance : Tolerance α} {norm : Norm α} {descent : NewtonDescent α}
  {search : StandardSearch α} {residual : Residual κ α Aux} {tags : Tags} {y y' : Tree κ α}
  {state state' : GaussNewtonState κ α} {aux : Aux}

/-- The systems of a run have as many equations and as many unknowns as the first. -/
theorem dims_of_iterateAt {k m : Nat} {it : Iterate κ α Aux (GaussNewtonState κ α)}
    (hcount : residual.HasLeafCount y.skeleton m)
    (hit : (newton tolerance norm descent search).toSolver.iterateAt residual tags y k = .ok it)
    {linear : Linearization κ α Aux} (hlinear : residual.linearize it.point = .ok linear) :
    linear.value.size = m ∧ it.point.size = y.size := by
  have hskeleton : it.point.skeleton = y.skeleton := iterateAt_skeleton k it hit
  exact ⟨hcount.linearize hskeleton hlinear, size_eq_of_skeleton hskeleton⟩

/-- A step that counts as successful certifies the shape of its system. -/
theorem admits_of_step
    (h : (newton tolerance norm descent search).step residual tags y state = .ok (y', state', aux))
    (hsuccess : state'.status = .successful) :
    ∃ linear, residual.linearize y = .ok linear ∧
      descent.linearSolver.Admits linear.value.size y.size tags := by
  have hends := step_ends tolerance norm descent.toDescent search residual tags y state
  rw [← newton_eq_withSearch, h] at hends
  cases hends with
  | moved linear trial state' hlinear htrial hstatus =>
      obtain ⟨diff, hcompute, -⟩ := htrial.step
      refine ⟨linear, hlinear, ?_⟩
      have hsystem := compute_ends descent linear tags y state.stepSize trial.stepSize
      rw [show descent.compute trial.stepSize _ = _ from hcompute] at hsystem
      cases hsystem with
      | solved answer hadmits hstatus => exact hadmits
      | refused answer cause hcause => exact absurd hcause (ofCause?_ne_successful cause)
  | stayed linear status state' hlinear hstays hstepSize hstatus =>
      -- Only running out of trials counts as successful, and Newton's descent never says so.
      rcases hstays with rfl | ⟨stepSize, step, hcompute, rfl, hfails⟩
      · exact absurd (hstatus.symm.trans hsuccess) (by decide)
      · have hsystem := compute_ends descent linear tags y state.stepSize stepSize
        rw [show descent.compute stepSize _ = _ from hcompute] at hsystem
        cases hsystem with
        | solved answer hadmits hsolved => exact absurd hsolved hfails
        | refused answer cause hcause =>
            have hspent := (stepStatus_eq_successful_iff _).mp (hstatus.symm.trans hsuccess)
            rcases hspent with hsolved | hspent
            · exact absurd hsolved hfails
            · rw [hspent] at hcause
              exact absurd hcause (ofCause?_ne_maxStepsReached cause)

/-- An error of a step is a system whose shape is not admitted. -/
theorem misfit_of_step {error : Error}
    (h : (newton tolerance norm descent search).step residual tags y state =
      .error (.reported error)) :
    ∃ linear report, residual.linearize y = .ok linear ∧ error = .linearSolver report ∧
      ¬descent.linearSolver.Admits linear.value.size y.size tags := by
  have hends := step_ends tolerance norm descent.toDescent search residual tags y state
  rw [← newton_eq_withSearch, h] at hends
  cases hends with
  | reported linear stepSize error hlinear hcompute =>
      have hsystem := compute_ends descent linear tags y state.stepSize stepSize
      rw [show descent.compute stepSize _ = _ from hcompute] at hsystem
      cases hsystem with
      | misfit report hadmits => exact ⟨linear, report, hlinear, rfl, hadmits⟩

/-- **The failures of a solve with Newton's descent.** If the residual has the same number of leaves at
every point of one skeleton, a failure is a failing status that was to be thrown, or a linear solver
that does not admit the shape of the system. The latter is discovered at the starting point, before any
step was taken. -/
theorem solve_failure (tolerance : Tolerance α) (norm : Norm α) (descent : NewtonDescent α)
    (search : StandardSearch α) (residual : Residual κ α Aux) (y : Tree κ α) (config : Config)
    {m : Nat} (hcount : residual.HasLeafCount y.skeleton m) {failure : SolveFailure κ α}
    (h : (newton tolerance norm descent search).toSolver.solve residual y config =
      .error (.reported failure)) :
    (config.throw = true ∧
        ∃ status, status ≠ .successful ∧ failure.error = .solve status failure.numSteps) ∨
      ∃ report, failure.error = .linearSolver report ∧ failure.numSteps = 0 ∧ failure.value = y ∧
        ¬descent.linearSolver.Admits m y.size config.tags := by
  rcases failure_of_solve h with hthrown | ⟨it, herrs, hvalue⟩
  · exact .inl hthrown
  obtain ⟨error, value, numSteps⟩ := failure
  obtain ⟨linear, report, hlinear, rfl, hmisfit⟩ := misfit_of_step herrs.errs
  obtain ⟨hequations, hunknowns⟩ := dims_of_iterateAt hcount herrs.reached hlinear
  rw [hequations, hunknowns] at hmisfit
  cases numSteps with
  | zero =>
      obtain ⟨state, -, rfl⟩ := IterativeSolver.iterateAt_zero_eq_ok.mp herrs.reached
      exact .inr ⟨report, rfl, rfl, hvalue.symm, hmisfit⟩
  | succ k =>
      -- The step that led to the iterate was successful, so the shape is admitted.
      exfalso
      obtain ⟨before, hbefore, -⟩ := IterativeSolver.iterateAt_succ_eq_ok.mp herrs.reached
      obtain ⟨aux, hstep, -⟩ := IterativeSolver.step_of_iterateAt hbefore herrs.reached
      have hsuccess := successful_of_goesOn herrs.reached (herrs.before (k + 1) (Nat.le_refl _))
      obtain ⟨earlier, hearlier, hadmits⟩ := admits_of_step hstep hsuccess
      obtain ⟨hequations, hunknowns⟩ := dims_of_iterateAt hcount hbefore hearlier
      rw [hequations, hunknowns] at hadmits
      exact hmisfit hadmits

end Run

section Doubled

open Exact GaussNewton

/-- The point twice over, of which a square factorization makes nothing. -/
def doubled : Residual Unit Exact Unit where
  value t := .ok (.tuple [t, t], ())
  tangent _ v := .ok (.tuple [v, v])

/-- Full steps with a factorization for square matrices. -/
noncomputable def squareSteps : GaussNewton Unit Exact Unit :=
  newton ⟨real 0, real 1⟩ .max ⟨none, .lu⟩ (.fixed FixedStep.full)

theorem doubled_errsFirstAt :
    squareSteps.toSolver.ErrsFirstAt doubled {} (.scalar (real 1)) 0
      ⟨.scalar (real 1), GaussNewton.start (.scalar (real 1)), none, 0⟩
      (.linearSolver ⟨.shapeMismatch, [.solving .lu 2 1, .needsSquare .lu 2 1]⟩) where
  reached := rfl
  errs := rfl
  before j hj := by
    obtain rfl : j = 0 := Nat.le_zero.mp hj
    exact goesOn_of_posInf rfl rfl rfl rfl

theorem doubled_hasLeafCount : doubled.HasLeafCount (Tree.scalar ()) 2 := by
  intro t u aux hskeleton hvalue
  cases hvalue
  have ht : t.size = 1 := by
    rw [← size_skeleton t, hskeleton]
    rfl
  show t.size + (t.size + 0) = 2
  rw [ht]

theorem squarePlusOne_hasLeafCount : squarePlusOne.HasLeafCount (Tree.scalar ()) 1 := by
  intro t u aux hskeleton hvalue
  cases hvalue
  rw [Tree.map, size_withLeaves, ← size_skeleton t, hskeleton]
  rfl

/-- Two equations for one unknown do not suit a square factorization, which is the failure before the
first step; and a status that is thrown is the failure after the second. -/
theorem solve_failure_doubled :
    (∃ failure, squareSteps.toSolver.solve doubled (.scalar (real 1)) ⟨1, false, {}⟩ =
        .error (.reported failure) ∧
        ∃ report, failure.error = .linearSolver report ∧ failure.numSteps = 0 ∧
          failure.value = .scalar (real 1) ∧ ¬Dense.Strategy.lu.Admits 2 1 {}) ∧
      ∃ failure, strides.toSolver.solve squarePlusOne (.scalar (real 2)) ⟨2, true, {}⟩ =
        .error (.reported failure) ∧
        ∃ status, status ≠ .successful ∧ failure.error = .solve status failure.numSteps := by
  have hmisfit : squareSteps.toSolver.solve doubled (.scalar (real 1)) ⟨1, false, {}⟩ = _ :=
    doubled_errsFirstAt.solve Nat.one_pos
  have hthrown := strides_stopsFirstAt.solve_thrown (Nat.le_refl 2) (by decide)
  refine ⟨⟨_, hmisfit, ?_⟩, ⟨_, hthrown, ?_⟩⟩
  · rcases solve_failure _ _ _ _ _ _ _ doubled_hasLeafCount hmisfit with ⟨hthrow, -⟩ | hshape
    · cases hthrow
    · exact hshape
  · rcases solve_failure _ _ _ _ _ _ _ squarePlusOne_hasLeafCount hthrown with
      ⟨-, hstatus⟩ | ⟨report, herror, -⟩
    · exact hstatus
    · cases herror

end Doubled

end LeastSquares
