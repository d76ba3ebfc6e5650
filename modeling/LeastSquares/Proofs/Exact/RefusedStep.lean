import LeastSquares.Proofs.Exact.AffineRun

/-!
# Steps that the linear solver refuses

When the dense solver refuses the system of a step for its numbers, Newton's descent has a failing
status and the search stays where it is: the step keeps the point and the step size, and remembers
the status.

The square plus one has no root. Its slope is zero at zero, where the system of the step is singular;
from any other point a step of any size goes to a point that is known.
-/

namespace LeastSquares

open Matrix Exact LeastSquares.Tree GaussNewton

variable {κ Aux : Type} {m : Nat}

section Refused

variable [Dense.Kernels Exact] {residual : Residual κ Exact Aux} {s : Tree κ Exact}
  {x : Fin s.size → ℝ} {r : Fin m → ℝ} {J : Matrix (Fin m) (Fin s.size) ℝ}
  {strategy : Dense.Strategy} {tags : Tags} {report : Dense.Report}

/-- A system that is refused for its numbers leaves a status. -/
theorem solve_of_refused {apply : Tree κ Exact → Checked (Tree κ Exact)} {codomain v : Tree κ Exact}
    (h : ActsAs apply s J) (hcodomain : codomain.size = m) (hv : v.leaves = vector r)
    (hsolve : Dense.solve strategy (toDense J) (vector r) tags = Outcome.report report)
    {status : Status} (hstatus : Status.ofCause? report.cause = some status) :
    (LinearOperator.ofFunction apply (s.withReals x) codomain tags).solve v strategy =
      .ok ⟨(s.withReals x).fill Scalar.nan, status⟩ := by
  simp only [LinearOperator.solve, LinearOperator.ofFunction, materialize_of_actsAs h (skeleton_withReals s x) hcodomain, hv,
    Outcome.liftM_eq_toOutcome, Checked.toOutcome_ok, Outcome.ok_bind, hsolve, Outcome.report, hstatus]
  rfl

variable {linear : Linearization κ Exact Aux}

/-- The direction of a step whose system is refused for its numbers has the status of the refusal. -/
theorem compute_of_refused (hvalue : linear.value.leaves = vector r)
    (htangent : ActsAs linear.tangent s J)
    (hsolve : Dense.solve strategy (toDense J) (vector r) tags = Outcome.report report)
    {status : Status} (hstatus : Status.ofCause? report.cause = some status)
    (norm : Option (Norm Exact)) (stepSize init : Exact) :
    ∃ diff, (⟨norm, strategy⟩ : NewtonDescent Exact).compute stepSize
        (searchOptions linear tags (s.withReals x) init).descentOptions =
      .ok ⟨diff, status⟩ := by
  have hdirection :=
    solve_of_refused (x := x) htangent (size_of_leaves hvalue) hvalue hsolve hstatus
  unfold NewtonDescent.compute NewtonDescent.direction
  simp only [LineSearchOptions.descentOptions, searchOptions, hdirection, Outcome.ok_bind,
    Outcome.pure_eq_ok]
  exact ⟨_, rfl⟩

/-- **A refused step.** It stays at its point with the step size of the state before, and has the
status of the refusal. -/
theorem step_of_refused (tolerance : Tolerance Exact) (norm : Norm Exact)
    (normalization : Option (Norm Exact)) (search : FixedStep Exact)
    (h : residual.LinearizesAt s x r J)
    (hsolve : Dense.solve strategy (toDense J) (vector r) tags = Outcome.report report)
    {status : Status} (hstatus : Status.ofCause? report.cause = some status) {t : Tree κ Exact}
    {aux : Aux} (hvalue : residual.value (s.withReals x) = .ok (t, aux))
    (state : GaussNewtonState κ Exact) :
    (newton tolerance norm ⟨normalization, strategy⟩ (.fixed search)).step residual tags
        (s.withReals x) state =
      .ok (s.withReals x,
        ⟨state.stepSize, s.withReals 0, real (r ⬝ᵥ r), state.objective, stepStatus status⟩, aux) := by
  obtain ⟨linear, hlinear, hleaves, htangent⟩ := h.linearize
  have haux : aux = linear.aux := by
    obtain ⟨answer, hanswer, heq⟩ := Outcome.bind_eq_ok.mp hlinear
    cases hvalue.symm.trans hanswer
    cases heq
    rfl
  obtain ⟨diff, hcompute⟩ :=
    compute_of_refused (x := x) hleaves htangent hsolve hstatus normalization search.size
      state.stepSize
  have hfails : status ≠ .successful := by
    rintro rfl
    exact ofCause?_ne_successful _ hstatus
  have hattempt : search.attempt residual.objective (NewtonDescent.toDescent ⟨normalization, strategy⟩)
      (s.withReals x) (searchOptions linear tags (s.withReals x) state.stepSize) =
      .ok (.stay (s.withReals x) (searchOptions linear tags (s.withReals x) state.stepSize) status 1) :=
    FixedStep.attempt_of_refused hcompute hfails
  refine step_eq_ok.mpr ⟨linear, .stay (s.withReals x) (searchOptions linear tags (s.withReals x)
    state.stepSize) status 1, s.withReals 0, hlinear, ?_, ?_, rfl, haux, ?_⟩
  · exact (StandardSearch.search_fixed ..).trans hattempt
  · rw [← sub_self x]
    exact sub_withReals s x x
  · rw [sumSquares_of_leaves hleaves]
    rfl

end Refused

section SquarePlusOne

/-- The square of the point, plus one, with the point itself as its auxiliary output. -/
noncomputable def squarePlusOne : Residual Unit Exact (List Exact) where
  value t := .ok (t.map fun x => x * x + 1, t.leaves)
  tangent t v := v.zipWith (fun d x => Scalar.ofNat 2 * x * d) t

theorem squarePlusOne_value (a : ℝ) :
    squarePlusOne.value (.scalar (real a)) =
      .ok (.scalar (real (a * a + 1)), [real a]) := rfl

theorem squarePlusOne_linearizesAt (start : Exact) (a : ℝ) :
    squarePlusOne.LinearizesAt (.scalar start) ![a] ![a * a + 1] !![2 * a] := by
  refine ⟨⟨_, _, squarePlusOne_value a, ?_⟩, fun (v : Fin 1 → ℝ) =>
    ⟨.scalar (real (2 * a * v 0)), ?_, ?_⟩⟩
  · rw [vector_one]
    rfl
  · show Except.ok (Tree.scalar (real ((2 : ℕ) * a * v 0))) = _
    rw [Nat.cast_ofNat]
  · show [real (2 * a * v 0)] = vector (!![2 * a] *ᵥ v)
    rw [mulVec_one, vector_one]
    rfl

variable (tolerance : Tolerance Exact) (norm : Norm Exact) {a : ℝ}
  (state : GaussNewtonState Unit Exact)

/-- A step from a point other than zero. -/
theorem squarePlusOne_step (ha : a ≠ 0) (l : ℝ) :
    (newton tolerance norm {} (.fixed ⟨real l⟩)).step squarePlusOne {} (.scalar (real a)) state =
      .ok (.scalar (real (a - l * ((a * a + 1) / (2 * a)))),
        ⟨real l, .scalar (real (-(l * ((a * a + 1) / (2 * a))))),
          real ((a * a + 1) * (a * a + 1)), state.objective, .successful⟩,
        [real (a - l * ((a * a + 1) / (2 * a)))]) := by
  have hslope : (!![2 * a] : Matrix (Fin 1) (Fin 1) ℝ) 0 0 ≠ 0 := by simpa using ha
  have hstep := step_fixed tolerance norm (squarePlusOne_linearizesAt (real a) a)
    (solve_single hslope ![a * a + 1]) l (squarePlusOne_value _) state
  have hdiff (d : ℝ) : a - d - a = -d := by ring
  have hsquares : (![a * a + 1] : Fin 1 → ℝ) ⬝ᵥ ![a * a + 1] = (a * a + 1) * (a * a + 1) := by
    simp [dotProduct]
  rw [hsquares] at hstep
  refine hstep.trans ?_
  rw [← hdiff]
  rfl

/-- At zero there is no step. -/
theorem squarePlusOne_step_zero (search : FixedStep Exact) :
    (newton tolerance norm {} (.fixed search)).step squarePlusOne {} (.scalar (real 0)) state =
      .ok (.scalar (real 0), ⟨state.stepSize, .scalar (real 0), real 1, state.objective, .singular⟩,
        [real 0]) := by
  have hslope : (!![2 * 0] : Matrix (Fin 1) (Fin 1) ℝ) 0 0 = 0 := by simp
  have hstep := step_of_refused tolerance norm none search (squarePlusOne_linearizesAt (real 0) 0)
    (solve_single_zero hslope _) rfl (squarePlusOne_value 0) state
  have hsquares : (![0 * 0 + 1] : Fin 1 → ℝ) ⬝ᵥ ![0 * 0 + 1] = 1 := by
    simp [dotProduct]
  rw [hsquares] at hstep
  exact hstep

/-- Long steps, which lead from two to zero at once. -/
noncomputable def strides : GaussNewton Unit Exact (List Exact) :=
  newton ⟨real 0, real 1⟩ .max {} (.fixed ⟨real (8 / 5)⟩)

theorem strides_iterateAt_zero :
    strides.toSolver.iterateAt squarePlusOne {} (.scalar (real 2)) 0 =
      .ok ⟨.scalar (real 2), GaussNewton.start (.scalar (real 2)), none, 0⟩ := rfl

theorem strides_iterateAt_one :
    strides.toSolver.iterateAt squarePlusOne {} (.scalar (real 2)) 1 =
      .ok ⟨.scalar (real 0),
        ⟨real (8 / 5), .scalar (real (-2)), real 25, posInf, .successful⟩, some [real 0], 1⟩ := by
  have hstep := squarePlusOne_step ⟨real 0, real 1⟩ .max (GaussNewton.start (.scalar (real 2)))
    two_ne_zero (8 / 5)
  have hlands : (2 : ℝ) - 8 / 5 * ((2 * 2 + 1) / (2 * 2)) = 0 := by norm_num
  have hdiff : -((8 / 5 : ℝ) * ((2 * 2 + 1) / (2 * 2))) = -2 := by norm_num
  have hsquares : ((2 : ℝ) * 2 + 1) * (2 * 2 + 1) = 25 := by norm_num
  rw [hlands, hdiff, hsquares] at hstep
  exact IterativeSolver.iterateAt_of_step strides_iterateAt_zero hstep

theorem strides_iterateAt_two :
    strides.toSolver.iterateAt squarePlusOne {} (.scalar (real 2)) 2 =
      .ok ⟨.scalar (real 0), ⟨real (8 / 5), .scalar (real 0), real 1, real 25, .singular⟩,
        some [real 0], 2⟩ :=
  IterativeSolver.iterateAt_of_step strides_iterateAt_one (squarePlusOne_step_zero _ _ _ _)

/-- Up to the failing step the test says to go on, because the objective before is not known. -/
theorem strides_goesOn {j : Nat} (hj : j ≤ 1) :
    strides.toSolver.GoesOnAt squarePlusOne {} (.scalar (real 2)) j := by
  rcases Nat.le_one_iff_eq_zero_or_eq_one.mp hj with rfl | rfl
  · exact goesOn_of_posInf strides_iterateAt_zero rfl rfl rfl
  · exact goesOn_of_posInf strides_iterateAt_one rfl rfl rfl

end SquarePlusOne

end LeastSquares
