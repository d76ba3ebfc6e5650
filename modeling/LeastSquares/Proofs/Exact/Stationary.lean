import LeastSquares.Proofs.Exact.DenseSolve
import LeastSquares.Proofs.Exact.Stopping
import LeastSquares.Proofs.Iteration.Exits
import LeastSquares.Proofs.LineSearch.Ends
import LeastSquares.Proofs.LineSearch.FirstTrial

/-!
# Starting at a stationary point

Where the Jacobian has full column rank and sends the residual to zero when transposed, the
least-squares solution of the linearized system is zero. It stays zero when it is brought to unit
length, since a direction of no length is left alone, and it stays zero at every step size. A fixed
step goes nowhere, and backtracking accepts its first trial, because neither side of the test of
sufficient decrease changes. Nothing is asked of the residual anywhere else.

So every step keeps the point and has a change of zero. The solve converges after two steps and not
after one, since the test compares the objectives at the starts of the last two steps
(`solve_stationary`).
-/

namespace LeastSquares

open Matrix Exact LeastSquares.Tree GaussNewton

variable {κ Aux : Type} {m : Nat}

/-- At a stationary point of full column rank, only zero is a least-squares solution. -/
theorem IsLeastSquares.eq_zero_of_stationary {n : Nat} {J : Matrix (Fin m) (Fin n) ℝ}
    {r : Fin m → ℝ} {z : Fin n → ℝ} (hbest : IsLeastSquares J r z) (hstationary : Jᵀ *ᵥ r = 0)
    (hrank : J.rank = n) : z = 0 := by
  have hnormal : Jᵀ *ᵥ (J *ᵥ (0 : Fin n → ℝ) - r) = 0 := by
    rw [mulVec_zero, zero_sub, mulVec_neg, hstationary, neg_zero]
  have hkernel := hbest.mulVec_sub_eq_zero hnormal
  rw [sub_zero] at hkernel
  exact eq_zero_of_rank hrank hkernel

/-! ### Step sizes that stay finite -/

namespace StandardSearch

variable {α : Type} [Scalar α]

/-- The step size of the first trial, for a search that is told one. -/
def firstSize : StandardSearch α → α → α
  | .fixed search, _ => search.size
  | .backtracking _, stepSize => stepSize

/-- The step size that is left to the next search when the first trial is accepted. -/
def nextSize : StandardSearch α → α → α
  | .fixed search, _ => search.size
  | .backtracking search, stepSize => search.nextInit 0 stepSize

/-- The numbers of the search are finite, and backtracking makes at least one trial. -/
def IsFinite : StandardSearch α → Prop
  | .fixed search => Scalar.isFinite search.size = true
  | .backtracking search =>
      Scalar.isFinite search.decreaseFactor = true ∧ Scalar.isFinite search.slope = true ∧
        Scalar.isFinite search.stepInit = true ∧ 0 < search.maxSteps

theorem IsFinite.firstSize {search : StandardSearch α} (h : search.IsFinite) {stepSize : α}
    (hstepSize : Scalar.isFinite stepSize = true) :
    Scalar.isFinite (search.firstSize stepSize) = true := by
  cases search with
  | fixed search => exact h
  | backtracking search => exact hstepSize

/-- From finite step sizes the search leaves finite ones. -/
def KeepsFinite (search : StandardSearch α) : Prop :=
  ∀ stepSize, Scalar.isFinite stepSize = true → Scalar.isFinite (search.nextSize stepSize) = true

theorem IsFinite.keepsFinite {search : StandardSearch Exact} (h : search.IsFinite)
    (hshrinks : ∀ b, search = .backtracking b → b.decreaseFactor ≠ 0) : search.KeepsFinite := by
  intro stepSize hstepSize
  cases search with
  | fixed search => exact h
  | backtracking search =>
      obtain ⟨hdecrease, -, hcap, -⟩ := h
      obtain ⟨d, hd⟩ := isFinite_iff.mp hdecrease
      obtain ⟨c, hc⟩ := isFinite_iff.mp hcap
      obtain ⟨l, rfl⟩ := isFinite_iff.mp hstepSize
      have hne : d ≠ 0 := fun hzero => hshrinks search rfl (by rw [hd, hzero, zero_eq])
      rw [nextSize, Backtracking.nextInit, if_pos rfl, hd, hc, real_div l hne, min_real]
      rfl

/-- What a full step leaves to the next search is finite, also if trials are shrunk to nothing. -/
theorem IsFinite.nextSize_one {search : StandardSearch Exact} (h : search.IsFinite) :
    Scalar.isFinite (search.nextSize 1) = true := by
  cases search with
  | fixed search => exact h
  | backtracking search =>
      obtain ⟨hdecrease, -, hcap, -⟩ := h
      obtain ⟨d, hd⟩ := isFinite_iff.mp hdecrease
      obtain ⟨c, hc⟩ := isFinite_iff.mp hcap
      rw [nextSize, Backtracking.nextInit, if_pos rfl, hd, hc, one_eq]
      by_cases hzero : d = 0
      · have hquotient : real 1 / real d = posInf := by
          rw [hzero]
          exact (if_pos rfl).trans (if_pos one_pos)
        rw [hquotient]
        simp [Scalar.min]
      · rw [real_div 1 hzero, min_real]
        rfl

end StandardSearch

/-! ### Searches along zero -/

section Search

variable {residual : Residual κ Exact Aux} {s : Tree κ Exact} {x : Fin s.size → ℝ} {r : Fin m → ℝ}
  {J : Matrix (Fin m) (Fin s.size) ℝ} {linear : Linearization κ Exact Aux} {tags : Tags}
  {init : Exact} {aux : Aux}

/-- A search whose first step is zero ends with it, at the point it began from. -/
theorem search_of_zero {search : StandardSearch Exact} (hfinite : search.IsFinite)
    (hvalue : linear.value.leaves = vector r) (htangent : ActsAs linear.tangent s J)
    {descent : Descent κ Exact}
    (hobjective : residual.objective (s.withReals x) = .ok (real (r ⬝ᵥ r), aux))
    (hcompute : descent.compute (search.firstSize init)
      (searchOptions linear tags (s.withReals x) init).descentOptions =
        .ok ⟨s.withReals 0, .successful⟩) :
    search.toLineSearch.search residual.objective descent (s.withReals x)
        (searchOptions linear tags (s.withReals x) init) false =
      .ok ⟨s.withReals x, .successful, ⟨search.nextSize init, 1⟩, aux⟩ := by
  have hadd : (s.withReals x).add (s.withReals 0) = .ok (s.withReals x) := by
    rw [add_withReals, add_zero]
  cases search with
  | fixed search =>
      rw [StandardSearch.search_fixed]
      exact FixedStep.attempt_of_successful hcompute hadd hobjective
  | backtracking search =>
      obtain ⟨-, hslope, -, hsteps⟩ := hfinite
      obtain ⟨slope, hslope⟩ := isFinite_iff.mp hslope
      have hpresent : (searchOptions linear tags (s.withReals x) init).objective =
          real (r ⬝ᵥ r) := sumSquares_of_leaves hvalue
      have hchange : (searchOptions linear tags (s.withReals x) init).predictedChange
          (s.withReals 0) = .ok (some (real 0)) := by
        rw [predictedChange_withReals hvalue htangent, mulVec_zero, dotProduct_zero, mul_zero]
      -- The two sides of the test are equal.
      have hsufficient : search.sufficient
          (searchOptions linear tags (s.withReals x) init).objective (some (real 0))
          (real (r ⬝ᵥ r)) = true := by
        rw [hpresent]
        simp [Backtracking.sufficient, hslope]
      rw [StandardSearch.search_backtracking]
      exact Backtracking.attempt_of_sufficient hsteps (hpresent ▸ isFinite_real _) hcompute hadd
        hobjective (isFinite_real _) hchange hsufficient

variable [Dense.Kernels Exact] {strategy : Dense.Strategy}

/-- If the system is solved by zero, Newton's descent is zero at every step size and in every norm. -/
theorem compute_of_zero (hvalue : linear.value.leaves = vector r)
    (htangent : ActsAs linear.tangent s J)
    (hsolve : Dense.solve strategy (toDense J) (vector r) tags =
      .ok (vector (0 : Fin s.size → ℝ)))
    (norm : Option (Norm Exact)) (init : Exact) {stepSize : Exact}
    (hfinite : Scalar.isFinite stepSize = true) :
    (⟨norm, strategy⟩ : NewtonDescent Exact).compute stepSize
        (searchOptions linear tags (s.withReals x) init).descentOptions =
      .ok ⟨s.withReals 0, .successful⟩ := by
  obtain ⟨l, rfl⟩ := isFinite_iff.mp hfinite
  obtain ⟨t, -, hnormalize⟩ := normalize_withReals norm s 0
  rw [compute_of_solution (x := x) hvalue htangent hsolve norm (real l) init, hnormalize, real_neg,
    scale_withReals, smul_zero, smul_zero]

end Search

/-! ### Runs from a stationary point -/

section Run

variable [Dense.Kernels Exact] {residual : Residual κ Exact Aux} {s : Tree κ Exact}
  {x : Fin s.size → ℝ} {r : Fin m → ℝ} {J : Matrix (Fin m) (Fin s.size) ℝ}
  {strategy : Dense.Strategy} {tags : Tags} {search : StandardSearch Exact} {t : Tree κ Exact}
  {aux : Aux}

/-- **A step from a stationary point** stays there. -/
theorem step_stationary (h : residual.LinearizesAt s x r J)
    (hsolve : Dense.solve strategy (toDense J) (vector r) tags =
      .ok (vector (0 : Fin s.size → ℝ)))
    (hvalue : residual.value (s.withReals x) = .ok (t, aux)) (tolerance : Tolerance Exact)
    (norm : Norm Exact) (normalization : Option (Norm Exact)) (hfinite : search.IsFinite)
    (state : GaussNewtonState κ Exact)
    (hstate : Scalar.isFinite (search.firstSize state.stepSize) = true) :
    (newton tolerance norm ⟨normalization, strategy⟩ search).step residual tags (s.withReals x)
        state =
      .ok (s.withReals x, ⟨search.nextSize state.stepSize, s.withReals 0, real (r ⬝ᵥ r),
        state.objective, .successful⟩, aux) := by
  obtain ⟨linear, hlinear, hleaves, htangent⟩ := h.linearize
  have hobjective : residual.objective (s.withReals x) = .ok (real (r ⬝ᵥ r), aux) := by
    obtain ⟨t', aux', hvalue', hleaves'⟩ := h.value
    cases hvalue.symm.trans hvalue'
    simp [Residual.objective, hvalue, sumSquares_of_leaves hleaves']
  have hcompute := compute_of_zero (x := x) hleaves htangent hsolve normalization state.stepSize hstate
  refine step_eq_ok.mpr ⟨linear, ⟨s.withReals x, .successful, ⟨search.nextSize state.stepSize, 1⟩,
    aux⟩, s.withReals 0, hlinear, ?_, ?_, rfl, rfl, ?_⟩
  · exact search_of_zero hfinite hleaves htangent hobjective hcompute
  · rw [sub_withReals, sub_self]
  · rw [sumSquares_of_leaves hleaves]
    rfl

/-- The state after `k + 1` steps at a point with a given objective. -/
noncomputable def restState (search : StandardSearch Exact) (s : Tree κ Exact) (f : ℝ) :
    Nat → GaussNewtonState κ Exact
  | 0 => ⟨search.nextSize 1, s.withReals 0, real f, posInf, .successful⟩
  | k + 1 => ⟨search.nextSize (restState search s f k).stepSize, s.withReals 0, real f, real f,
      .successful⟩

omit [Dense.Kernels Exact] in
/-- The first two step sizes are always finite. -/
theorem isFinite_restState (hfinite : search.IsFinite) (f : ℝ) {k : Nat}
    (hk : k < 2 ∨ search.KeepsFinite) :
    ∀ j < k, Scalar.isFinite (restState search s f j).stepSize = true := by
  intro j hj
  rcases hk with hk | hkeeps
  · obtain rfl : j = 0 := by omega
    exact hfinite.nextSize_one
  · clear hj
    induction j with
    | zero => exact hfinite.nextSize_one
    | succ j ih => exact hkeeps _ ih

/-- **A run from a stationary point** stays there as long as its step sizes are finite. -/
theorem iterateAt_stationary (h : residual.LinearizesAt s x r J)
    (hsolve : Dense.solve strategy (toDense J) (vector r) tags =
      .ok (vector (0 : Fin s.size → ℝ)))
    (hvalue : residual.value (s.withReals x) = .ok (t, aux)) (tolerance : Tolerance Exact)
    (norm : Norm Exact) (normalization : Option (Norm Exact)) (hfinite : search.IsFinite) (k : Nat)
    (hsizes : ∀ j < k, Scalar.isFinite (restState search s (r ⬝ᵥ r) j).stepSize = true) :
    (newton tolerance norm ⟨normalization, strategy⟩ search).toSolver.iterateAt residual tags
        (s.withReals x) (k + 1) =
      .ok ⟨s.withReals x, restState search s (r ⬝ᵥ r) k, some aux, k + 1⟩ := by
  have hstep := step_stationary h hsolve hvalue tolerance norm normalization hfinite
  induction k with
  | zero =>
      exact IterativeSolver.iterateAt_of_step
        (IterativeSolver.iterateAt_zero_eq_ok.mpr ⟨GaussNewton.start (s.withReals x), rfl, rfl⟩)
        (hstep _ (hfinite.firstSize rfl))
  | succ k ih =>
      have hbefore := ih fun j hj => hsizes j (Nat.lt_succ_of_lt hj)
      have hobjective : (restState search s (r ⬝ᵥ r) k).objective = real (r ⬝ᵥ r) := by
        cases k <;> rfl
      have hlast := hstep (restState search s (r ⬝ᵥ r) k)
        (hfinite.firstSize (hsizes k (Nat.lt_succ_self k)))
      rw [hobjective] at hlast
      exact IterativeSolver.iterateAt_of_step hbefore hlast

end Run

/-- **Starting at a stationary point.** Nothing is known of the residual but that, at this point, it is
real, has a Jacobian of full column rank, and is orthogonal to its columns; the linear solver answers
the least-squares solution there. Then every step from there, with a fixed step or with backtracking
and whether or not directions are brought to unit length, stays there with a change of zero and
succeeds; so do the first two steps of the run, and all of them if step sizes stay finite. A solve
answers this very point after exactly two steps. -/
theorem solve_stationary [Dense.Kernels Exact] {residual : Residual κ Exact Aux} {y : Tree κ Exact}
    {x : Fin y.size → ℝ} (hy : y.leaves = vector x) {r : Fin m → ℝ}
    {J : Matrix (Fin m) (Fin y.size) ℝ} (h : residual.LinearizesAt y x r J)
    (hstationary : Jᵀ *ᵥ r = 0) (hrank : J.rank = y.size) {strategy : Dense.Strategy}
    {config : Config} {z : Fin y.size → ℝ}
    (hsolve : Dense.solve strategy (toDense J) (vector r) config.tags = .ok (vector z))
    (hbest : IsLeastSquares J r z) {search : StandardSearch Exact} (hfinite : search.IsFinite)
    {relative absolute : ℝ} (hrelative : 0 ≤ relative) (habsolute : 0 < absolute)
    {norm : Norm Exact} (hnorm : norm.IsBuiltIn) (normalization : Option (Norm Exact))
    (hsteps : 2 ≤ config.maxSteps) :
    let method : GaussNewton κ Exact Aux :=
      newton ⟨real relative, real absolute⟩ norm ⟨normalization, strategy⟩ search
    ∃ t aux, residual.value y = .ok (t, aux) ∧
      (∀ state : GaussNewtonState κ Exact,
        Scalar.isFinite (search.firstSize state.stepSize) = true →
        method.step residual config.tags y state =
          .ok (y, ⟨search.nextSize state.stepSize, y.zeros, real (r ⬝ᵥ r), state.objective,
            .successful⟩, aux)) ∧
      (∀ k, k < 2 ∨ search.KeepsFinite → ∃ state, state.diff = y.zeros ∧
        state.status = .successful ∧ method.toSolver.iterateAt residual config.tags y (k + 1) =
          .ok ⟨y, state, some aux, k + 1⟩) ∧
      ∃ state, method.toSolver.solve residual y config = .ok ⟨y, .successful, aux, 2, state⟩ := by
  intro method
  obtain rfl := hbest.eq_zero_of_stationary hstationary hrank
  have hreals : y.withReals x = y := withReals_of_leaves hy
  obtain ⟨t, aux, hvalue, -⟩ := h.value
  have hstep := step_stationary h hsolve hvalue ⟨real relative, real absolute⟩ norm normalization
    hfinite
  have hit (k : Nat) (hk : k < 2 ∨ search.KeepsFinite) := iterateAt_stationary h hsolve hvalue
    ⟨real relative, real absolute⟩ norm normalization hfinite k
    (isFinite_restState hfinite (r ⬝ᵥ r) hk)
  have hsettled := pointSettled_zero hrelative habsolute hnorm y x
  rw [hreals] at hvalue hsettled
  simp only [hreals] at hstep hit
  have hone := hit 0 (.inl two_pos)
  have htwo := hit 1 (.inl one_lt_two)
  have hgoes (j : Nat) (hj : j < 2) : method.toSolver.GoesOnAt residual config.tags y j := by
    rcases Nat.le_one_iff_eq_zero_or_eq_one.mp (Nat.le_of_lt_succ hj) with rfl | rfl
    · exact goesOn_of_posInf (IterativeSolver.iterateAt_zero_eq_ok.mpr ⟨_, rfl, rfl⟩) rfl
        (size_withLeaves _ _) rfl
    · exact goesOn_of_posInf hone rfl (size_withReals y 0) rfl
  have hclose : |r ⬝ᵥ r - r ⬝ᵥ r| < absolute + relative * |r ⬝ᵥ r| := by
    rw [sub_self, abs_zero]
    positivity
  have hstops : method.stop y (restState search y (r ⬝ᵥ r) 1) = .ok (true, .successful) := by
    rw [stop_of_settled rfl hsettled]
    exact congrArg (fun settled => Except.ok (settled, Status.successful))
      ((objectiveSettled_real _ _).trans (decide_eq_true hclose))
  refine ⟨t, aux, hvalue, ?_, ?_, ?_⟩
  · intro state hstate
    rw [← withReals_zero]
    exact hstep state hstate
  · intro k hk
    refine ⟨restState search y (r ⬝ᵥ r) k, ?_, ?_, hit k hk⟩
    · cases k <;> exact withReals_zero y
    · cases k <;> rfl
  · exact ⟨_, IterativeSolver.StopsFirstAt.solve_successful ⟨htwo, hstops, hgoes⟩ hsteps rfl⟩

/-- A point of the plane that moves along a bent line. -/
noncomputable def bentLine : Residual Unit Exact Unit where
  value t := .ok (.array .growable (t.leaves.flatMap fun a =>
    [Scalar.ofNat 4 + Scalar.ofNat 3 * a + a * a, Scalar.ofNat 4 * a - Scalar.ofNat 3]), ())
  tangent t v := .ok (.array .growable (List.zipWith (fun a d =>
    [(Scalar.ofNat 3 + Scalar.ofNat 2 * a) * d, Scalar.ofNat 4 * d]) t.leaves v.leaves).flatten)

/-- At zero the point is not at the origin, and it moves at a right angle to the way there. -/
theorem bentLine_linearizesAt :
    bentLine.LinearizesAt (.scalar (real 0)) ![0] ![4, -3] (Dense.twoRows 3 4) := by
  have hvalue : bentLine.value (.scalar (real 0)) =
      .ok (.array .growable [real (4 + 3 * 0 + 0 * 0), real (4 * 0 - 3)], ()) := by
    simp [bentLine, leaves]
  have htangent (d : ℝ) : bentLine.tangent (.scalar (real 0)) (.scalar (real d)) =
      .ok (.array .growable [real ((3 + 2 * 0) * d), real (4 * d)]) := by
    simp [bentLine, leaves]
  refine ⟨⟨_, (), hvalue, ?_⟩, fun (v : Fin 1 → ℝ) => ⟨_, htangent (v 0), ?_⟩⟩
  · simp [leaves, vector]
  · refine Eq.trans ?_ (congrArg vector (Dense.mulVec_twoRows 3 4 v)).symm
    simp [leaves, vector]

theorem rank_twoRows : (Dense.twoRows 3 4).rank = 1 := by
  have hinjective : Function.Injective (Dense.twoRows 3 4).mulVecLin := by
    intro u v huv
    rw [mulVecLin_apply, mulVecLin_apply, Dense.mulVec_twoRows, Dense.mulVec_twoRows] at huv
    have hentry : 3 * u 0 = 3 * v 0 := congrFun huv 0
    funext i
    rw [Fin.fin_one_eq_zero i]
    linarith
  rw [Matrix.rank, LinearMap.finrank_range_of_inj hinjective, Module.finrank_fin_fun]

/-- Begun at the nearest point of the bent line to the origin, a run with backtracking stays there for
ever, and a solve ends there after two steps. -/
theorem solve_stationary_bentLine :
    (Tree.scalar (real 0) : Tree Unit Exact).leaves = vector ![0] ∧
      bentLine.LinearizesAt (.scalar (real 0)) ![0] ![4, -3] (Dense.twoRows 3 4) ∧
      (Dense.twoRows 3 4)ᵀ *ᵥ ![4, -3] = 0 ∧ (Dense.twoRows 3 4).rank = 1 ∧
      Dense.solve .qr (toDense (Dense.twoRows 3 4)) (vector ![4, -3]) {} = .ok (vector ![0]) ∧
      IsLeastSquares (Dense.twoRows 3 4) ![4, -3] ![0] ∧
      let method : GaussNewton Unit Exact Unit := newton ⟨real 0, real 1⟩ .two ⟨some .max, .qr⟩
        (.backtracking ⟨real (1 / 2), real (1 / 10), real 1, 20⟩)
      (∀ k, ∃ state, method.toSolver.iterateAt bentLine {} (.scalar (real 0)) (k + 1) =
        .ok ⟨.scalar (real 0), state, some (), k + 1⟩) ∧
      ∃ state, method.toSolver.solve bentLine (.scalar (real 0)) {} =
        .ok ⟨.scalar (real 0), .successful, (), 2, state⟩ := by
  have hleaves : (Tree.scalar (real 0) : Tree Unit Exact).leaves = vector ![0] :=
    (vector_one ![0]).symm
  have hfinite : (StandardSearch.backtracking
      ⟨real (1 / 2), real (1 / 10), real 1, 20⟩).IsFinite := ⟨rfl, rfl, rfl, by decide⟩
  have hkeeps := hfinite.keepsFinite fun b hb => by
    obtain rfl := StandardSearch.backtracking.inj hb
    simp
  have hstationary : (Dense.twoRows 3 4)ᵀ *ᵥ ![4, -3] = 0 := by
    ext i
    rw [Fin.fin_one_eq_zero i]
    norm_num [Dense.twoRows, mulVec, dotProduct, Fin.sum_univ_two]
  have hsolve : Dense.solve .qr (toDense (Dense.twoRows 3 4)) (vector ![4, -3]) {} =
      .ok (vector ![0]) := by
    rw [Dense.solve_qr_column]
    norm_num
  have hbest : IsLeastSquares (Dense.twoRows 3 4) ![4, -3] ![0] := by
    have hzero : (![0] : Fin 1 → ℝ) = 0 := by simp
    rw [hzero]
    apply isLeastSquares_of_normal
    rw [mulVec_zero, zero_sub, mulVec_neg, hstationary, neg_zero]
  refine ⟨hleaves, bentLine_linearizesAt, hstationary, rank_twoRows, hsolve, hbest, ?_⟩
  obtain ⟨t, aux, -, -, hstays, hend⟩ := @solve_stationary Unit Unit 2 _ bentLine (.scalar (real 0))
    ![0] hleaves ![4, -3] (Dense.twoRows 3 4) bentLine_linearizesAt hstationary rank_twoRows .qr {}
    ![0] hsolve hbest _ hfinite 0 1 le_rfl one_pos .two trivial (some .max) (by decide)
  refine ⟨fun k => ?_, hend⟩
  obtain ⟨state, -, -, hit⟩ := hstays k (.inr hkeeps)
  exact ⟨state, hit⟩

end LeastSquares
