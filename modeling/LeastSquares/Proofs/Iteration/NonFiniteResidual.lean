import LeastSquares.Proofs.Floating.Binary
import LeastSquares.Proofs.Iteration.FiniteObjective
import LeastSquares.Proofs.LineSearch.FirstTrial
import LeastSquares.Proofs.Operator.UnitImages
import LeastSquares.Proofs.Dense.Verdict
import LeastSquares.Proofs.SpecialValues

/-!
# Residuals that are not finite

Where the residual has a leaf that is no finite number, a step of the Gauss–Newton method with
Newton's descent stays, and the run ends there. The two line searches find out at different depths.
Backtracking looks at the objective before anything is solved, and the sum of squares is not finite if
a leaf is not. A fixed step goes to the linear solver, which looks at the right-hand side before it
factors the matrix. The shape of the matrix is looked at before that only where the solver insists on
a square: then a shape that is not square is an error and no status (`newton_stays_at_not_finite`).
-/

namespace LeastSquares

/-- The status with which a step ends where the residual is not finite. -/
def StandardSearch.refusal {α : Type} : StandardSearch α → Status
  | .fixed _ => .nonFiniteInput
  | .backtracking _ => .lineSearchFailed

theorem StandardSearch.refusal_ne_successful {α : Type} (search : StandardSearch α) :
    search.refusal ≠ .successful := by
  cases search <;> simp [refusal]

section Refusals

variable {κ α : Type} [Scalar α] [Dense.Kernels α] {strategy : Dense.Strategy} {a : DenseMatrix α}

/-- A right-hand side that is not finite is refused before anything is factored. -/
theorem Dense.solve_of_not_finite {b : List α} {tags : Tags} (hfits : b.length = a.nrows)
    (hcols : a.ncols ≠ 0) (hshape : ¬(strategy = .auto (some true) ∧ a.nrows ≠ a.ncols))
    (hb : b.all Scalar.isFinite = false) :
    Dense.solve strategy a b tags = Outcome.report ⟨.nonFiniteInput, [.rhsNotFinite]⟩ := by
  obtain ⟨kind, hkind⟩ := (strategy.selects_iff a.nrows a.ncols tags).mpr hshape
  rw [Dense.solve, if_neg (not_not_intro hfits), if_neg hcols, hkind]
  simp [hb]

variable {operator : LinearOperator κ α} {vector : Tree κ α}

/-- The refusal comes back as a status, with no numbers in the solution. -/
theorem LinearOperator.solve_of_not_finite (hmatrix : operator.matrix = .ok a)
    (hfits : vector.leaves.length = a.nrows) (hcols : a.ncols ≠ 0)
    (hshape : ¬(strategy = .auto (some true) ∧ a.nrows ≠ a.ncols))
    (hvector : vector.leaves.all Scalar.isFinite = false) :
    operator.solve vector strategy = .ok ⟨operator.domain.fill Scalar.nan, .nonFiniteInput⟩ := by
  simp only [solve, hmatrix, Dense.solve_of_not_finite hfits hcols hshape hvector,
    Outcome.liftM_eq_toOutcome, Checked.toOutcome_ok, Outcome.ok_bind, Outcome.report]
  rfl

end Refusals

namespace GaussNewton

/-- A step that stays and stops is the last one of a run. -/
theorem solve_of_stays {κ α Aux : Type} [Scalar α] {method : GaussNewton κ α Aux}
    {residual : Residual κ α Aux} {tags : Tags} {y y₀ : Tree κ α} {aux : Aux} {status : Status}
    (hfails : status ≠ .successful)
    (hstep : ∀ state, ∃ state', method.step residual tags y state = .ok (y, state', aux) ∧
      state'.status = status ∧ method.toSolver.stop residual tags y state' = .ok (true, status))
    {k : Nat} {it : Iterate κ α Aux (GaussNewtonState κ α)}
    (hit : method.toSolver.iterateAt residual tags y₀ k = .ok it) (hpoint : it.point = y)
    (hgo : ∀ j ≤ k, method.toSolver.GoesOnAt residual tags y₀ j) {maxSteps : Nat}
    (hmax : k + 1 ≤ maxSteps) :
    (∃ state, method.toSolver.solve residual y₀ ⟨maxSteps, false, tags⟩ =
        .ok ⟨y, status, aux, k + 1, state⟩) ∧
      method.toSolver.solve residual y₀ ⟨maxSteps, true, tags⟩ =
        Outcome.report ⟨.solve status (k + 1), y, k + 1⟩ := by
  obtain ⟨state', hstep, -, hstop⟩ := hstep it.state
  rw [← hpoint] at hstep hstop
  have hnext := IterativeSolver.iterateAt_of_step hit hstep
  have hfirst : method.toSolver.StopsFirstAt residual tags y₀ (k + 1) _ status :=
    ⟨hnext, hstop, fun j hj => hgo j (Nat.lt_succ_iff.mp hj)⟩
  rw [hfirst.solve hmax, hfirst.solve_thrown hmax hfails, ← hpoint]
  exact ⟨⟨state', rfl⟩, rfl⟩

variable {κ α Aux : Type} [Scalar α] [Dense.Kernels α] {descent : NewtonDescent α}
  {residual : Residual κ α Aux} {tags : Tags} {y value : Tree κ α} {aux : Aux}

/-- Newton's descent at such a point has the status of the refusal, whatever the step size. -/
theorem compute_of_not_finite (linear : Linearization κ α Aux) (tags : Tags) (hy : 0 < y.size)
    (htangent : ∀ j < y.size, ∃ image, linear.tangent (y.unit j) = .ok image ∧
      image.size ≤ linear.value.size)
    (hshape : ¬(descent.linearSolver = .auto (some true) ∧ linear.value.size ≠ y.size))
    (hvalue : linear.value.leaves.all Scalar.isFinite = false) (stepSize init : α) :
    ∃ diff, descent.compute stepSize (searchOptions linear tags y init).descentOptions =
      .ok ⟨diff, .nonFiniteInput⟩ := by
  obtain ⟨a, hmatrix⟩ := exists_materialize htangent
  obtain ⟨hrows, hcols⟩ := dims_of_materialize hmatrix
  have hfits : linear.value.leaves.length = a.nrows := by rw [Tree.leaves_length, hrows]
  have hshape : ¬(descent.linearSolver = .auto (some true) ∧ a.nrows ≠ a.ncols) := by
    rwa [hrows, hcols]
  have hsolve : (LinearOperator.ofFunction linear.tangent y linear.value tags).solve linear.value
      descent.linearSolver = .ok ⟨y.fill Scalar.nan, .nonFiniteInput⟩ :=
    LinearOperator.solve_of_not_finite hmatrix hfits (by omega) hshape hvalue
  refine ⟨(NewtonDescent.normalize descent.norm (y.fill Scalar.nan)).scale (-stepSize), ?_⟩
  simp only [NewtonDescent.compute, NewtonDescent.direction, LineSearchOptions.descentOptions,
    searchOptions, hsolve, Outcome.ok_bind, Outcome.pure_eq_ok]

variable (tags) (tolerance : Tolerance α) (norm : Norm α) (hvalue : residual.value y = .ok (value, aux))

include hvalue

/-- A fixed step stays where the solver refuses the residual. -/
theorem step_fixed_of_not_finite (search : FixedStep α) (hy : 0 < y.size)
    (htangent : ∀ j < y.size, ∃ image, residual.tangent y (y.unit j) = .ok image ∧
      image.size ≤ value.size)
    (hshape : ¬(descent.linearSolver = .auto (some true) ∧ value.size ≠ y.size))
    (hfinite : value.leaves.all Scalar.isFinite = false) (state : GaussNewtonState κ α) :
    ∃ state', (newton tolerance norm descent (.fixed search)).step residual tags y state =
        .ok (y, state', aux) ∧ state'.status = .nonFiniteInput := by
  have hlinear : residual.linearize y = .ok ⟨value, residual.tangent y, aux⟩ := by
    simp [Residual.linearize, hvalue]
  obtain ⟨diff, hcompute⟩ := compute_of_not_finite ⟨value, residual.tangent y, aux⟩ tags
    hy htangent hshape hfinite search.size state.stepSize
  have hattempt : search.attempt residual.objective descent.toDescent y
      (searchOptions ⟨value, residual.tangent y, aux⟩ tags y state.stepSize) = _ :=
    FixedStep.attempt_of_refused hcompute (by decide)
  refine ⟨_, step_eq_ok.mpr ⟨_, .stay y
    (searchOptions ⟨value, residual.tangent y, aux⟩ tags y state.stepSize) .nonFiniteInput 1, _,
    hlinear, ?_, Tree.zipWith_eq_ok _ rfl, rfl, rfl, rfl⟩, rfl⟩
  exact (StandardSearch.search_fixed ..).trans hattempt

/-- Either search stays where the residual is not finite. -/
theorem step_stays [Scalar.LawfulFinite α] (search : StandardSearch α)
    (hleaf : ∃ x ∈ value.leaves, Scalar.isFinite x = false) (hy : 0 < y.size)
    (htangent : ∀ j < y.size, ∃ image, residual.tangent y (y.unit j) = .ok image ∧
      image.size ≤ value.size)
    (hshape : ∀ fixed, search = .fixed fixed →
      ¬(descent.linearSolver = .auto (some true) ∧ value.size ≠ y.size))
    (state : GaussNewtonState κ α) :
    ∃ state', (newton tolerance norm descent search).step residual tags y state =
        .ok (y, state', aux) ∧ state'.status = search.refusal := by
  obtain ⟨x, hx, hinfinite⟩ := hleaf
  cases search with
  | fixed search =>
      have hall : value.leaves.all Scalar.isFinite = false := by
        rw [List.all_eq_false]
        exact ⟨x, hx, Bool.eq_false_iff.mp hinfinite⟩
      exact step_fixed_of_not_finite tags tolerance norm hvalue search hy htangent (hshape _ rfl)
        hall state
  | backtracking search =>
      have hsum : Scalar.isFinite (sumSquares value) = false := by
        refine Bool.eq_false_iff.mpr fun hfinite => ?_
        exact Bool.eq_false_iff.mp hinfinite (Scalar.isFinite_of_sumSquaresOf hfinite x hx)
      exact step_of_not_finite tolerance norm descent.toDescent search tags state hvalue hsum

/-- After such a step the test says stop. -/
theorem step_stays_and_stops [Scalar.LawfulFinite α] (search : StandardSearch α)
    (hleaf : ∃ x ∈ value.leaves, Scalar.isFinite x = false) (hy : 0 < y.size)
    (htangent : ∀ j < y.size, ∃ image, residual.tangent y (y.unit j) = .ok image ∧
      image.size ≤ value.size)
    (hshape : ∀ fixed, search = .fixed fixed →
      ¬(descent.linearSolver = .auto (some true) ∧ value.size ≠ y.size))
    (state : GaussNewtonState κ α) :
    ∃ state', (newton tolerance norm descent search).step residual tags y state =
        .ok (y, state', aux) ∧ state'.status = search.refusal ∧
      (newton tolerance norm descent search).toSolver.stop residual tags y state' =
        .ok (true, search.refusal) := by
  obtain ⟨state', hstep, hstatus⟩ :=
    step_stays tags tolerance norm hvalue search hleaf hy htangent hshape state
  refine ⟨state', hstep, hstatus, ?_⟩
  rw [stop_of_failed _ residual tags y state' (hstatus ▸ search.refusal_ne_successful), hstatus]

end GaussNewton

open GaussNewton in
/-- **A residual that is not finite ends a run.** At a point with at least one leaf, let the residual
have a leaf that is no number or infinite, and let its derivative have images there with no more
leaves. Then a step of the Gauss–Newton method with Newton's descent stays at the point, whatever the
state, with the auxiliary output there and a failing status: with backtracking the search has failed,
and with a fixed step the input is not finite, unless the linear solver insists on a square and there
is none. The test after the step says stop with this status. So every run that steps from the point
ends with this step, and a run that begins there does: with the point, the status and the auxiliary
output, or with the error of the status if these are thrown. -/
theorem newton_stays_at_not_finite {κ α Aux : Type} [Scalar α] [Dense.Kernels α]
    [Scalar.LawfulFinite α] [Scalar.LawfulNaN α] {residual : Residual κ α Aux} (tags : Tags)
    {y value : Tree κ α} {aux : Aux} (hvalue : residual.value y = .ok (value, aux))
    (hleaf : ∃ x ∈ value.leaves, Scalar.isFinite x = false) (hy : 0 < y.size)
    (htangent : ∀ j < y.size, ∃ image, residual.tangent y (y.unit j) = .ok image ∧
      image.size ≤ value.size)
    (tolerance : Tolerance α) (norm : Norm α) (descent : NewtonDescent α) (search : StandardSearch α)
    (hshape : ∀ fixed, search = .fixed fixed →
      ¬(descent.linearSolver = .auto (some true) ∧ value.size ≠ y.size)) :
    (∀ state, ∃ state', (newton tolerance norm descent search).step residual tags y state =
        .ok (y, state', aux) ∧ state'.status = search.refusal ∧
      (newton tolerance norm descent search).toSolver.stop residual tags y state' =
        .ok (true, search.refusal)) ∧
    (∀ y₀ k it, (newton tolerance norm descent search).toSolver.iterateAt residual tags y₀ k = .ok it →
      it.point = y →
      (∀ j ≤ k, (newton tolerance norm descent search).toSolver.GoesOnAt residual tags y₀ j) →
      ∀ maxSteps, k + 1 ≤ maxSteps →
        (∃ state, (newton tolerance norm descent search).toSolver.solve residual y₀
            ⟨maxSteps, false, tags⟩ = .ok ⟨y, search.refusal, aux, k + 1, state⟩) ∧
        (newton tolerance norm descent search).toSolver.solve residual y₀ ⟨maxSteps, true, tags⟩ =
          Outcome.report ⟨.solve search.refusal (k + 1), y, k + 1⟩) ∧
    ∀ maxSteps, 1 ≤ maxSteps →
      (∃ state, (newton tolerance norm descent search).toSolver.solve residual y
          ⟨maxSteps, false, tags⟩ = .ok ⟨y, search.refusal, aux, 1, state⟩) ∧
      (newton tolerance norm descent search).toSolver.solve residual y ⟨maxSteps, true, tags⟩ =
        Outcome.report ⟨.solve search.refusal 1, y, 1⟩ := by
  have hstep := step_stays_and_stops tags tolerance norm hvalue search hleaf hy htangent hshape
  refine ⟨hstep, ?_, ?_⟩
  · intro y₀ k it hit hpoint hgo maxSteps hmax
    exact solve_of_stays search.refusal_ne_successful hstep hit hpoint hgo hmax
  · intro maxSteps hmax
    refine solve_of_stays search.refusal_ne_successful hstep (iterateAt_zero _ residual tags y) rfl
      (fun j hj => ?_) hmax
    obtain rfl := Nat.le_zero.mp hj
    exact goesOn_start _ residual tags y

section Runs

open GaussNewton

/-- A residual in double precision of two leaves, the second of which is no number. -/
def halfMissing : Residual Unit Float Unit where
  value _ := .ok (.array .fixed [1, Scalar.nan], ())
  tangent _ _ := .ok (.array .fixed [1, 1])

/-- From a single leaf the matrix is a column. Backtracking gives up, and a fixed step is refused by
the solver of least squares. -/
theorem newton_stays_at_not_finite_halfMissing :
    (newton ⟨1, 1⟩ .max {} (.backtracking .standard)).toSolver.solve halfMissing (.scalar 1)
        ⟨5, true, {}⟩ = Outcome.report ⟨.solve .lineSearchFailed 1, .scalar 1, 1⟩ ∧
      (newton ⟨1, 1⟩ .max {} (.fixed .full)).toSolver.solve halfMissing (.scalar 1) ⟨5, true, {}⟩ =
        Outcome.report ⟨.solve .nonFiniteInput 1, .scalar 1, 1⟩ := by
  have hvalue : halfMissing.value (.scalar 1) = .ok (.array .fixed [1, Scalar.nan], ()) := rfl
  have hleaf : ∃ x ∈ (Tree.array .fixed [1, Scalar.nan] : Tree Unit Float).leaves,
      Scalar.isFinite x = false := ⟨Scalar.nan, List.mem_cons_of_mem _ List.mem_cons_self, rfl⟩
  have htangent : ∀ j < (Tree.scalar 1 : Tree Unit Float).size, ∃ image,
      halfMissing.tangent (.scalar 1) (Tree.unit (.scalar 1) j) = .ok image ∧
        image.size ≤ (Tree.array .fixed [1, Scalar.nan] : Tree Unit Float).size :=
    fun j _ => ⟨_, rfl, Nat.le_refl 2⟩
  have hends (search : StandardSearch Float) := newton_stays_at_not_finite {} hvalue hleaf
    Nat.one_pos htangent ⟨1, 1⟩ .max {} search fun _ _ h => nomatch h.1
  exact ⟨((hends (.backtracking .standard)).2.2 5 (by decide)).2,
    ((hends (.fixed .full)).2.2 5 (by decide)).2⟩

end Runs

end LeastSquares
