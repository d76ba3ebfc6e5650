import LeastSquares.Proofs.Exact.Minimiser
import LeastSquares.Proofs.Exact.SingleUnknown
import LeastSquares.Proofs.Exact.Stopping
import LeastSquares.Proofs.Iteration.Exits
import LeastSquares.Proofs.Iteration.Newton
import LeastSquares.Proofs.LineSearch.FirstTrial

/-!
# Full steps on an affine residual

For the residual `A x - b` with full column rank, a full Gauss–Newton step from anywhere lands on the
least-squares solution, and every later step stays there. What decides the number of steps is the
history of objectives: the state after a step holds the objective where the step began, and the one
before that. So the two objectives that the stopping test compares are both unknown before the first
step, one is unknown after it, and they belong to the starting point and to the solution after the
second. After the third step both belong to the solution, and the test says stop (`solve_affine`).
-/

namespace LeastSquares

open Matrix Exact LeastSquares.Tree GaussNewton

variable {κ Aux : Type} {m : Nat}

section Step

variable [Dense.Kernels Exact] {residual : Residual κ Exact Aux} {s : Tree κ Exact}

/-- **A fixed step.** It goes back along the solution for the residual at its point, and remembers the
objective there. -/
theorem step_fixed {x z : Fin s.size → ℝ} {r : Fin m → ℝ} {J : Matrix (Fin m) (Fin s.size) ℝ}
    (tolerance : Tolerance Exact) (norm : Norm Exact) {strategy : Dense.Strategy} {tags : Tags}
    (h : residual.LinearizesAt s x r J)
    (hsolve : Dense.solve strategy (toDense J) (vector r) tags = .ok (vector z)) (l : ℝ)
    {t : Tree κ Exact} {aux : Aux}
    (hvalue : residual.value (s.withReals (x - l • z)) = .ok (t, aux))
    (state : GaussNewtonState κ Exact) :
    (newton tolerance norm ⟨none, strategy⟩ (.fixed ⟨real l⟩)).step residual tags (s.withReals x)
        state =
      .ok (s.withReals (x - l • z),
        ⟨real l, s.withReals (x - l • z - x), real (r ⬝ᵥ r), state.objective, .successful⟩,
        aux) := by
  obtain ⟨linear, hlinear, hleaves, htangent⟩ := h.linearize
  have hcompute := compute_of_dense (x := x) hleaves htangent hsolve l state.stepSize
  have hobjective : residual.objective (s.withReals (x - l • z)) = .ok (sumSquares t, aux) := by
    simp [Residual.objective, hvalue]
  have hattempt : FixedStep.attempt ⟨real l⟩ residual.objective
      (NewtonDescent.toDescent ⟨none, strategy⟩) (s.withReals x)
      (searchOptions linear tags (s.withReals x) state.stepSize) =
      .ok ⟨s.withReals (x - l • z), .successful, ⟨real l, 1⟩, aux⟩ :=
    FixedStep.attempt_of_successful hcompute (add_withReals_neg_smul s x z l) hobjective
  refine step_eq_ok.mpr ⟨linear, ⟨s.withReals (x - l • z), .successful, ⟨real l, 1⟩, aux⟩,
    s.withReals (x - l • z - x), hlinear, ?_, sub_withReals .., rfl, rfl, ?_⟩
  · exact (StandardSearch.search_fixed ..).trans hattempt
  · rw [sumSquares_of_leaves hleaves]
    rfl

end Step

/-- A residual that is `A x - b` on the trees of a skeleton, with `A` of full column rank. -/
structure Residual.IsAffine (residual : Residual κ Exact Aux) (s : Tree κ Exact)
    (A : Matrix (Fin m) (Fin s.size) ℝ) (b : Fin m → ℝ) : Prop where
  linearizesAt : ∀ x, residual.LinearizesAt s x (A *ᵥ x - b) A
  rank : A.rank = s.size

section Run

/-- The state after `k + 1` full steps from `x` that lead to `best` at once: `squares` are the
objectives at the points. -/
noncomputable def landedState (s : Tree κ Exact) (squares : (Fin s.size → ℝ) → ℝ)
    (x best : Fin s.size → ℝ) : Nat → GaussNewtonState κ Exact
  | 0 => ⟨1, s.withReals (best - x), real (squares x), posInf, .successful⟩
  | k + 1 => ⟨1, s.withReals 0, real (squares best), (landedState s squares x best k).objective,
      .successful⟩

variable [Dense.Kernels Exact] {residual : Residual κ Exact Aux} {s : Tree κ Exact}
  {A : Matrix (Fin m) (Fin s.size) ℝ} {b : Fin m → ℝ} {best : Fin s.size → ℝ}
  {strategy : Dense.Strategy} {tags : Tags} {t : Tree κ Exact} {aux : Aux}

/-- A full step from anywhere lands on the least-squares solution. -/
theorem step_affine (tolerance : Tolerance Exact) (norm : Norm Exact)
    (h : residual.IsAffine s A b) (hsolver : SolvesLeastSquares strategy tags A)
    (hbest : IsLeastSquares A b best) (hvalue : residual.value (s.withReals best) = .ok (t, aux))
    (x : Fin s.size → ℝ) (state : GaussNewtonState κ Exact) :
    (newton tolerance norm ⟨none, strategy⟩ (.fixed .full)).step residual tags (s.withReals x)
        state =
      .ok (s.withReals best,
        ⟨1, s.withReals (best - x), real (squaresAt A b x), state.objective, .successful⟩, aux) := by
  obtain ⟨z, hsolve, hz⟩ := hsolver (A *ᵥ x - b)
  have hlands : x - (1 : ℝ) • z = best := by
    rw [one_smul]
    exact hbest.eq hz.sub h.rank
  have hstep := step_fixed tolerance norm (h.linearizesAt x) hsolve 1 (hlands ▸ hvalue) state
  rw [hlands] at hstep
  exact hstep

/-- The iterates of full steps: all but the first are at the least-squares solution. -/
theorem iterateAt_affine (tolerance : Tolerance Exact) (norm : Norm Exact)
    (h : residual.IsAffine s A b) (hsolver : SolvesLeastSquares strategy tags A)
    (hbest : IsLeastSquares A b best) (hvalue : residual.value (s.withReals best) = .ok (t, aux))
    (x : Fin s.size → ℝ) (k : Nat) :
    (newton tolerance norm ⟨none, strategy⟩ (.fixed .full)).toSolver.iterateAt residual tags
        (s.withReals x) (k + 1) =
      .ok ⟨s.withReals best, landedState s (squaresAt A b) x best k, some aux, k + 1⟩ := by
  have hadvance (x : Fin s.size → ℝ) (state : GaussNewtonState κ Exact) (aux' : Option Aux)
      (n : Nat) :
      (newton tolerance norm ⟨none, strategy⟩ (.fixed .full)).toSolver.advance residual tags
          ⟨s.withReals x, state, aux', n⟩ =
        .ok ⟨s.withReals best, ⟨1, s.withReals (best - x), real (squaresAt A b x), state.objective,
          .successful⟩, some aux, n + 1⟩ :=
    IterativeSolver.advance_eq_ok.mpr
      ⟨_, _, _, step_affine tolerance norm h hsolver hbest hvalue x state, rfl⟩
  induction k with
  | zero =>
      rw [IterativeSolver.iterateAt_succ
        (IterativeSolver.iterateAt_zero_eq_ok.mpr ⟨GaussNewton.start (s.withReals x), rfl, rfl⟩)]
      exact hadvance x _ none 0
  | succ k ih =>
      rw [IterativeSolver.iterateAt_succ ih, hadvance, sub_self]
      rfl

/-- Before the second full step the test says to go on, because the objective before is not known. -/
theorem goesOn_affine (tolerance : Tolerance Exact) (norm : Norm Exact)
    (h : residual.IsAffine s A b) (hsolver : SolvesLeastSquares strategy tags A)
    (hbest : IsLeastSquares A b best) (hvalue : residual.value (s.withReals best) = .ok (t, aux))
    (x : Fin s.size → ℝ) {j : Nat} (hj : j < 2) :
    (newton tolerance norm ⟨none, strategy⟩ (.fixed .full)).toSolver.GoesOnAt residual tags
      (s.withReals x) j := by
  rcases Nat.le_one_iff_eq_zero_or_eq_one.mp (Nat.le_of_lt_succ hj) with rfl | rfl
  · exact goesOn_of_posInf
      (IterativeSolver.iterateAt_zero_eq_ok.mpr ⟨GaussNewton.start (s.withReals x), rfl, rfl⟩) rfl
      (size_withLeaves _ _) rfl
  · exact goesOn_of_posInf (iterateAt_affine tolerance norm h hsolver hbest hvalue x 0) rfl
      ((size_withReals s _).trans (size_withReals s best).symm) rfl

/-- After two and more full steps the test compares the objective at the solution with the one
before it in the history. -/
theorem stop_landed {relative absolute : ℝ} {norm : Norm Exact} (hrelative : 0 ≤ relative)
    (habsolute : 0 < absolute) (hnorm : norm.IsBuiltIn) {squares : (Fin s.size → ℝ) → ℝ}
    {x : Fin s.size → ℝ} {k : Nat} {f : ℝ}
    (hf : (landedState s squares x best k).objective = real f) :
    (newton ⟨real relative, real absolute⟩ norm ⟨none, strategy⟩ (.fixed .full) :
        GaussNewton κ Exact Aux).stop (s.withReals best) (landedState s squares x best (k + 1)) =
      .ok (decide (|squares best - f| < absolute + relative * |squares best|), .successful) := by
  rw [stop_of_settled rfl (pointSettled_zero hrelative habsolute hnorm s best)]
  show Except.ok (objectiveSettled _ _ (landedState s squares x best k).objective, _) = _
  rw [hf]
  exact congrArg (fun settled => Except.ok (settled, _)) (objectiveSettled_real (squares best) f)

/-- **Full steps on an affine residual.** For a residual `A x - b` with full column rank, a solver
that answers least-squares solutions, and at least three steps, the solve succeeds at the only point
where the objective is least. It is there after the first step and stays there, and it stops after
two steps if the objective at the starting point is within tolerance of the least one, and after
three if not. -/
theorem solve_affine {y : Tree κ Exact} {A : Matrix (Fin m) (Fin y.size) ℝ} {b : Fin m → ℝ}
    {x : Fin y.size → ℝ} (hy : y.leaves = vector x) (h : residual.IsAffine y A b) {config : Config}
    (hsolver : SolvesLeastSquares strategy config.tags A) {relative absolute : ℝ}
    (hrelative : 0 ≤ relative) (habsolute : 0 < absolute) {norm : Norm Exact}
    (hnorm : norm.IsBuiltIn) (hsteps : 3 ≤ config.maxSteps) :
    ∃ best, (∀ z, z ≠ best → squaresAt A b best < squaresAt A b z) ∧
      (∃ aux state,
        (newton ⟨real relative, real absolute⟩ norm ⟨none, strategy⟩ (.fixed .full)).toSolver.solve
            residual y config =
          .ok ⟨y.withReals best, .successful, aux,
            if |squaresAt A b best - squaresAt A b x| < absolute + relative * squaresAt A b best
            then 2 else 3, state⟩) ∧
      ∀ k, ∃ state aux,
        (newton ⟨real relative, real absolute⟩ norm ⟨none, strategy⟩
            (.fixed .full)).toSolver.iterateAt residual config.tags y (k + 1) =
          .ok ⟨y.withReals best, state, some aux, k + 1⟩ := by
  obtain ⟨best, -, hbest⟩ := hsolver b
  obtain ⟨t, aux, hvalue, -⟩ := (h.linearizesAt best).value
  have hit := iterateAt_affine ⟨real relative, real absolute⟩ norm h hsolver hbest hvalue x
  have hgoes (j : Nat) (hj : j < 2) :=
    goesOn_affine ⟨real relative, real absolute⟩ norm h hsolver hbest hvalue x hj
  rw [withReals_of_leaves hy] at hit hgoes
  have hstop (k : Nat) (f : ℝ) := @stop_landed κ Aux _ y best strategy relative absolute norm
    hrelative habsolute hnorm (squaresAt A b) x k f
  rw [abs_of_nonneg (squaresAt_nonneg A b best)] at hstop
  refine ⟨best, fun z hz => hbest.lt h.rank hz, ⟨aux, ?_⟩, fun k => ⟨_, aux, hit k⟩⟩
  by_cases hclose :
      |squaresAt A b best - squaresAt A b x| < absolute + relative * squaresAt A b best
  · -- The second step has put the starting point's objective next to the least one.
    rw [if_pos hclose]
    have hstops := (hstop 0 _ rfl).trans (by rw [decide_eq_true hclose])
    exact ⟨_, IterativeSolver.StopsFirstAt.solve_successful ⟨hit 1, hstops, hgoes⟩ (by omega) rfl⟩
  · -- One more step puts the least objective next to itself.
    rw [if_neg hclose]
    have hzero : |squaresAt A b best - squaresAt A b best| <
        absolute + relative * squaresAt A b best := by
      rw [sub_self, abs_zero]
      have hnonneg := mul_nonneg hrelative (squaresAt_nonneg A b best)
      linarith
    have hstops := (hstop 1 _ rfl).trans (by rw [decide_eq_true hzero])
    refine ⟨_, IterativeSolver.StopsFirstAt.solve_successful ⟨hit 2, hstops, fun j hj => ?_⟩
      hsteps rfl⟩
    rcases Nat.lt_or_eq_of_le (Nat.le_of_lt_succ hj) with hlt | rfl
    · exact hgoes j hlt
    · exact ⟨_, .successful, hit 1, (hstop 0 _ rfl).trans (by rw [decide_eq_false hclose])⟩

end Run

/-- Twice the point, less six. -/
noncomputable def doubledLessSix : Residual Unit Exact Unit where
  value t := .ok (t.map fun x => Scalar.ofNat 2 * x - Scalar.ofNat 6, ())
  tangent _ v := .ok (v.scale (Scalar.ofNat 2))

theorem doubledLessSix_isAffine : doubledLessSix.IsAffine (.scalar (real 0)) !![2] ![6] where
  linearizesAt x := by
    have hvalue (x : Fin 1 → ℝ) : (fun i => 2 * x i - 6) = !![2] *ᵥ x - ![6] := by
      rw [mulVec_one]
      funext i
      rw [Fin.fin_one_eq_zero i]
      simp
    have htangent (v : Fin 1 → ℝ) : (2 : ℝ) • v = !![2] *ᵥ v := by
      rw [mulVec_one]
      funext i
      rw [Fin.fin_one_eq_zero i]
      simp
    refine ⟨⟨_, (), rfl, ?_⟩, fun v => ⟨_, rfl, ?_⟩⟩
    · have hreal (x : ℝ) : Scalar.ofNat 2 * real x - Scalar.ofNat 6 = real (2 * x - 6) := by simp
      rw [leaves_map, leaves_withReals, map_vector hreal]
      exact congrArg vector (hvalue x)
    · rw [ofNat_eq, scale_withReals, leaves_withReals]
      exact congrArg vector (htangent v)
  rank := by
    have hunit : IsUnit (!![2] : Matrix (Fin 1) (Fin 1) ℝ) := by
      simp [Matrix.isUnit_iff_isUnit_det]
    exact Matrix.rank_of_isUnit _ hunit

/-- From zero, the root of twice the point less six is found in three steps. -/
theorem solve_affine_line :
    (Tree.scalar (real 0) : Tree Unit Exact).leaves = vector ![0] ∧
      doubledLessSix.IsAffine (.scalar (real 0)) !![2] ![6] ∧
      SolvesLeastSquares .standard {} (!![2] : Matrix (Fin 1) (Fin 1) ℝ) ∧
      ∃ state,
        (newton ⟨real 0, real 1⟩ .max {} (.fixed .full)).toSolver.solve doubledLessSix
            (.scalar (real 0)) {} =
          .ok ⟨.scalar (real 3), .successful, (), 3, state⟩ := by
  have hleaves : (Tree.scalar (real 0) : Tree Unit Exact).leaves = vector ![0] :=
    (vector_one ![0]).symm
  have hsolver : SolvesLeastSquares .standard {} (!![2] : Matrix (Fin 1) (Fin 1) ℝ) :=
    solvesLeastSquares_single (by simp)
  refine ⟨hleaves, doubledLessSix_isAffine, hsolver, ?_⟩
  obtain ⟨best, hbest, ⟨aux, state, hsolve⟩, -⟩ :=
    @solve_affine Unit Unit 1 _ doubledLessSix .standard (.scalar (real 0)) !![2] ![6] ![0] hleaves
      doubledLessSix_isAffine {} hsolver 0 1 le_rfl one_pos .max trivial (by decide)
  have hthree : best = (![3] : Fin 1 → ℝ) := by
    by_contra hne
    have hlt : squaresAt !![2] ![6] best < squaresAt !![2] ![6] (![3] : Fin 1 → ℝ) :=
      hbest ![3] fun h => hne h.symm
    have hnonneg := squaresAt_nonneg !![2] ![6] best
    have hleast : squaresAt !![2] ![6] (![3] : Fin 1 → ℝ) = 0 := by
      rw [squaresAt_one]
      norm_num
    linarith
  subst hthree
  have hcount : (if |squaresAt !![2] ![6] (![3] : Fin 1 → ℝ) - squaresAt !![2] ![6] ![0]| <
      1 + 0 * squaresAt !![2] ![6] (![3] : Fin 1 → ℝ) then 2 else 3) = 3 := by
    rw [squaresAt_one, squaresAt_one]
    norm_num
  refine ⟨state, hsolve.trans ?_⟩
  exact congrArg (fun count => Except.ok (Solution.mk (.scalar (real 3)) .successful () count state))
    hcount

end LeastSquares
