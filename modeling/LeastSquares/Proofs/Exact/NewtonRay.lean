import LeastSquares.Proofs.Exact.BacktrackingRun
import LeastSquares.Proofs.Exact.Tolerance
import LeastSquares.Proofs.Iteration.Agreement
import LeastSquares.Proofs.LineSearch.Ends

/-!
# Backtracking along the Newton step of an affine residual

Along the negative of a solution `n` of the normal equations the objective of `A x - b` is a parabola:
after a step of size `s` it has changed by `(s ^ 2 - 2 s) |A n| ^ 2`, while `- 2 s |A n| ^ 2` was
predicted. So backtracking accepts the trial exactly if `A n` is zero or `s` is at most
`2 (1 - slope)`, and a full step is accepted under every slope up to one half.

A method that backtracks from full steps then never shrinks them, and the step size that it leaves to
the next search is one again. It makes the same run as the method that takes full steps without asking,
whether or not the linear solver answers on the way (`solve_backtracking_eq_full`).
-/

namespace LeastSquares

open Matrix Exact LeastSquares.Tree GaussNewton

variable {κ Aux : Type} {m : Nat}

section Parabola

variable {n : Nat} {A : Matrix (Fin m) (Fin n) ℝ} {b : Fin m → ℝ} {x z : Fin n → ℝ}

/-- The objective along a Newton step is a parabola in the step size. -/
theorem squaresAt_sub_smul (h : Aᵀ *ᵥ (A *ᵥ z - (A *ᵥ x - b)) = 0) (s : ℝ) :
    squaresAt A b (x - s • z) = squaresAt A b x + (s ^ 2 - 2 * s) * (A *ᵥ z ⬝ᵥ A *ᵥ z) := by
  have hproduct := dotProduct_of_normal h
  have hresidual : A *ᵥ (x - s • z) - b = (A *ᵥ x - b) - s • A *ᵥ z := by
    rw [mulVec_sub, mulVec_smul]
    abel
  unfold squaresAt
  rw [hresidual]
  generalize A *ᵥ x - b = r at hproduct ⊢
  simp only [sub_dotProduct, dotProduct_sub, smul_dotProduct, dotProduct_smul, smul_eq_mul,
    dotProduct_comm (A *ᵥ z) r, hproduct]
  ring

/-- The objective after a step is low enough exactly if the step is not longer than the slope allows,
or changes nothing. -/
theorem squaresAt_le_predicted_iff (h : Aᵀ *ᵥ (A *ᵥ z - (A *ᵥ x - b)) = 0) {s : ℝ} (hs : 0 < s)
    (slope : ℝ) :
    squaresAt A b (x - s • z) ≤
        squaresAt A b x + slope * (2 * ((A *ᵥ x - b) ⬝ᵥ A *ᵥ (-s • z))) ↔
      A *ᵥ z = 0 ∨ s ≤ 2 * (1 - slope) := by
  have hpredicted : (A *ᵥ x - b) ⬝ᵥ A *ᵥ (-s • z) = -s * (A *ᵥ z ⬝ᵥ A *ᵥ z) := by
    rw [mulVec_smul, dotProduct_smul, dotProduct_of_normal h, smul_eq_mul]
  have hdifference : squaresAt A b x + slope * (2 * (-s * (A *ᵥ z ⬝ᵥ A *ᵥ z))) -
      squaresAt A b (x - s • z) = s * (2 * (1 - slope) - s) * (A *ᵥ z ⬝ᵥ A *ᵥ z) := by
    rw [squaresAt_sub_smul h]
    ring
  rw [hpredicted, ← sub_nonneg, hdifference]
  have hsquares := dotProduct_self_nonneg (A *ᵥ z)
  constructor
  · intro hle
    by_contra hno
    rw [not_or, not_le] at hno
    have hpositive : 0 < A *ᵥ z ⬝ᵥ A *ᵥ z :=
      lt_of_le_of_ne hsquares fun hzero => hno.1 (dotProduct_self_eq_zero.mp hzero.symm)
    have hnegative : s * (2 * (1 - slope) - s) < 0 := mul_neg_of_pos_of_neg hs (by linarith [hno.2])
    exact absurd hle (not_le.mpr (mul_neg_of_neg_of_pos hnegative hpositive))
  · rintro (hzero | hle)
    · rw [hzero, dotProduct_zero, mul_zero]
    · exact mul_nonneg (mul_nonneg hs.le (by linarith)) hsquares

end Parabola

/-- A residual that is `A x - b` on the trees of a skeleton. Nothing is asked of the rank. -/
def Residual.ActsAffinely (residual : Residual κ Exact Aux) (s : Tree κ Exact)
    (A : Matrix (Fin m) (Fin s.size) ℝ) (b : Fin m → ℝ) : Prop :=
  ∀ x, residual.LinearizesAt s x (A *ᵥ x - b) A

variable {residual : Residual κ Exact Aux} {s : Tree κ Exact} {A : Matrix (Fin m) (Fin s.size) ℝ}
  {b : Fin m → ℝ} {linear : Linearization κ Exact Aux}

/-- The objective at a real point. -/
theorem Residual.ActsAffinely.objective (h : residual.ActsAffinely s A b) (x : Fin s.size → ℝ) :
    ∃ aux, residual.objective (s.withReals x) = .ok (real (squaresAt A b x), aux) := by
  obtain ⟨t, aux, hvalue, hleaves⟩ := (h x).value
  refine ⟨aux, ?_⟩
  simp only [Residual.objective, hvalue, Outcome.ok_bind, sumSquares_of_leaves hleaves]
  rfl

/-- What is known of a linearization at a real point. -/
theorem Residual.ActsAffinely.of_linearize (h : residual.ActsAffinely s A b) {x : Fin s.size → ℝ}
    (hlinear : residual.linearize (s.withReals x) = .ok linear) :
    linear.value.leaves = vector (A *ᵥ x - b) ∧ ActsAs linear.tangent s A := by
  obtain ⟨linear', hlinear', hvalue, htangent⟩ := (h x).linearize
  obtain rfl := Except.ok.inj (hlinear.symm.trans hlinear')
  exact ⟨hvalue, htangent⟩

section Search

variable [Dense.Kernels Exact] {x z : Fin s.size → ℝ} {strategy : Dense.Strategy} {tags : Tags}
  {decrease slope cap stepSize : ℝ} {maxSteps : Nat}

omit [Dense.Kernels Exact] in
/-- What is enough at a step along a solution of the normal equations. -/
theorem sufficient_newton_iff (hvalue : linear.value.leaves = vector (A *ᵥ x - b))
    (hnormal : Aᵀ *ᵥ (A *ᵥ z - (A *ᵥ x - b)) = 0) (hpos : 0 < stepSize) (init : Exact) :
    Backtracking.sufficient ⟨real decrease, real slope, real cap, maxSteps⟩
        (searchOptions linear tags (s.withReals x) init).objective
        (some (real (2 * ((A *ᵥ x - b) ⬝ᵥ A *ᵥ (-stepSize • z)))))
        (real (squaresAt A b (x - stepSize • z))) = true ↔
      A *ᵥ z = 0 ∨ stepSize ≤ 2 * (1 - slope) := by
  have hpresent : (searchOptions linear tags (s.withReals x) init).objective =
      real (squaresAt A b x) := sumSquares_of_leaves hvalue
  rw [hpresent, ← squaresAt_le_predicted_iff hnormal hpos slope]
  simp [Backtracking.sufficient]

/-- **A trial along a Newton step** is accepted exactly if its step size is not above
`2 (1 - slope)`, or if the step does not change the residual. -/
theorem acceptsTrial_newton_iff (h : residual.ActsAffinely s A b)
    (hlinear : residual.linearize (s.withReals x) = .ok linear)
    (hsolve : Dense.solve strategy (toDense A) (vector (A *ᵥ x - b)) tags = .ok (vector z))
    (hnormal : Aᵀ *ᵥ (A *ᵥ z - (A *ᵥ x - b)) = 0) (hpos : 0 < stepSize) (init : Exact)
    (remaining trial : Nat) (best : Option (Trial κ Exact Aux)) :
    Backtracking.AcceptsTrial ⟨real decrease, real slope, real cap, maxSteps⟩ residual.objective
        (NewtonDescent.toDescent ⟨none, strategy⟩) (s.withReals x)
        (searchOptions linear tags (s.withReals x) init) remaining trial (real stepSize) best ↔
      A *ᵥ z = 0 ∨ stepSize ≤ 2 * (1 - slope) := by
  obtain ⟨hvalue, htangent⟩ := h.of_linearize hlinear
  obtain ⟨aux, hobjective⟩ := h.objective (x - stepSize • z)
  have hcompute := compute_of_dense (x := x) hvalue htangent hsolve stepSize init
  have hchange :=
    predictedChange_withReals hvalue htangent tags (s.withReals x) init (-stepSize • z)
  exact Iff.trans (Backtracking.acceptsTrial_iff hcompute (add_withReals_neg_smul s x z stepSize)
    hobjective (isFinite_real _) hchange remaining trial best)
    (sufficient_newton_iff hvalue hnormal hpos init)

/-- What becomes of Newton's descent at a point: it reports an error or faults, or it fails, or it goes
back along a solution of the normal equations. -/
theorem compute_newton_cases (hvalue : linear.value.leaves = vector (A *ᵥ x - b))
    (htangent : ActsAs linear.tangent s A)
    (hsolver : SolvesNormalEquations strategy tags A (A *ᵥ x - b)) (l : ℝ) (init : Exact) :
    (∃ failure, (⟨none, strategy⟩ : NewtonDescent Exact).compute (real l)
        (searchOptions linear tags (s.withReals x) init).descentOptions = .error failure) ∨
      (∃ diff status, status ≠ .successful ∧ (⟨none, strategy⟩ : NewtonDescent Exact).compute (real l)
        (searchOptions linear tags (s.withReals x) init).descentOptions = .ok ⟨diff, status⟩) ∨
      ∃ z, Aᵀ *ᵥ (A *ᵥ z - (A *ᵥ x - b)) = 0 ∧
        (⟨none, strategy⟩ : NewtonDescent Exact).compute (real l)
          (searchOptions linear tags (s.withReals x) init).descentOptions =
            .ok ⟨s.withReals (-l • z), .successful⟩ := by
  cases hcompute : (⟨none, strategy⟩ : NewtonDescent Exact).compute (real l)
      (searchOptions linear tags (s.withReals x) init).descentOptions with
  | error failure => exact .inl ⟨failure, rfl⟩
  | ok step =>
      by_cases hsuccess : step.status = .successful
      · obtain ⟨z, hsolve, hnormal, -⟩ := solution_of_compute hvalue htangent hsolver hcompute hsuccess
        have hcompute' := compute_of_dense (x := x) hvalue htangent hsolve l init
        exact .inr (.inr ⟨z, hnormal, hcompute.symm.trans hcompute'⟩)
      · exact .inr (.inl ⟨step.diff, step.status, hsuccess, rfl⟩)

/-- **The full step is never shortened.** A search that is told to begin with a full step finds what a
full step finds. -/
theorem attempt_eq_full (h : residual.ActsAffinely s A b)
    (hlinear : residual.linearize (s.withReals x) = .ok linear)
    (hsolver : SolvesNormalEquations strategy tags A (A *ᵥ x - b)) (hdecrease : 0 < decrease)
    (hdecrease' : decrease ≤ 1) (hslope : slope ≤ 1 / 2) (hsteps : 0 < maxSteps) :
    Backtracking.attempt ⟨real decrease, real slope, real 1, maxSteps⟩ residual.objective
        (NewtonDescent.toDescent ⟨none, strategy⟩) (s.withReals x)
        (searchOptions linear tags (s.withReals x) 1) =
      FixedStep.full.attempt residual.objective (NewtonDescent.toDescent ⟨none, strategy⟩)
        (s.withReals x) (searchOptions linear tags (s.withReals x) 1) := by
  obtain ⟨hvalue, htangent⟩ := h.of_linearize hlinear
  have hpresent : Scalar.isFinite (searchOptions linear tags (s.withReals x) 1).objective = true := by
    show Scalar.isFinite (sumSquares linear.value) = true
    rw [sumSquares_of_leaves hvalue]
    rfl
  have hinit : Backtracking.nextInit ⟨real decrease, real slope, real 1, maxSteps⟩ 0 1 = 1 := by
    have hquotient : 1 ≤ 1 / decrease := (one_le_div hdecrease).mpr hdecrease'
    rw [Backtracking.nextInit, if_pos rfl, one_eq, real_div 1 hdecrease.ne', min_real,
      min_eq_right hquotient]
  obtain ⟨failure, hcompute⟩ | ⟨diff, status, hfails, hcompute⟩ | ⟨z, hnormal, hcompute⟩ :=
    compute_newton_cases hvalue htangent hsolver 1 1
  · exact (Backtracking.attempt_of_failure hsteps hpresent hcompute).trans
      (FixedStep.attempt_of_failure hcompute).symm
  · exact (Backtracking.attempt_of_refused hsteps hpresent hcompute hfails).trans
      (FixedStep.attempt_of_refused hcompute hfails).symm
  · obtain ⟨aux, hobjective⟩ := h.objective (x - (1 : ℝ) • z)
    have hadd := add_withReals_neg_smul s x z 1
    have hchange := predictedChange_withReals hvalue htangent tags (s.withReals x) 1 (-(1 : ℝ) • z)
    refine Eq.trans (Backtracking.attempt_of_sufficient hsteps hpresent hcompute hadd hobjective
      (isFinite_real _) hchange ((sufficient_newton_iff hvalue hnormal one_pos 1).mpr ?_)) ?_
    · exact .inr (by linarith)
    · rw [FixedStep.attempt_of_successful hcompute hadd hobjective]
      exact congrArg (fun init => Except.ok (LineSearchSolution.mk _ .successful ⟨init, 1⟩ aux)) hinit

/-- A full step goes from a real point to a real point, and leaves a full step to the next search. -/
theorem full_found (h : residual.ActsAffinely s A b)
    (hlinear : residual.linearize (s.withReals x) = .ok linear)
    (hsolver : SolvesNormalEquations strategy tags A (A *ᵥ x - b))
    {found : LineSearchSolution κ Exact Aux}
    (hfound : FixedStep.full.attempt residual.objective (NewtonDescent.toDescent ⟨none, strategy⟩)
      (s.withReals x) (searchOptions linear tags (s.withReals x) 1) = .ok found) :
    IsReal s found.value ∧ found.state.nextInit = 1 := by
  obtain ⟨hvalue, htangent⟩ := h.of_linearize hlinear
  obtain ⟨failure, hcompute⟩ | ⟨diff, status, hfails, hcompute⟩ | ⟨z, -, hcompute⟩ :=
    compute_newton_cases hvalue htangent hsolver 1 1
  · cases hfound.symm.trans (FixedStep.attempt_of_failure hcompute)
  · cases hfound.symm.trans (FixedStep.attempt_of_refused hcompute hfails)
    exact ⟨⟨x, rfl⟩, rfl⟩
  · obtain ⟨aux, hobjective⟩ := h.objective (x - (1 : ℝ) • z)
    cases hfound.symm.trans (FixedStep.attempt_of_successful hcompute
      (add_withReals_neg_smul s x z 1) hobjective)
    exact ⟨⟨x - (1 : ℝ) • z, rfl⟩, rfl⟩

end Search

section Run

variable [Dense.Kernels Exact] {strategy : Dense.Strategy} {tags : Tags} {decrease slope : ℝ}
  {maxSteps : Nat}

/-- From a real point, and as long as the searches are told to begin with full steps, backtracking
steps as full steps do. -/
theorem backtracking_stepsLike_full (h : residual.ActsAffinely s A b) (x₀ : Fin s.size → ℝ)
    (hsolver : ∀ x, SolvesNormalEquations strategy tags A (A *ᵥ x - b)) (hdecrease : 0 < decrease)
    (hdecrease' : decrease ≤ 1) (hslope : slope ≤ 1 / 2) (hsteps : 0 < maxSteps)
    (tolerance : Tolerance Exact) (norm : Norm Exact) :
    IterativeSolver.StepsLike
      (newton tolerance norm ⟨none, strategy⟩
        (.backtracking ⟨real decrease, real slope, real 1, maxSteps⟩)).toSolver
      (newton tolerance norm ⟨none, strategy⟩ (.fixed .full)).toSolver
      residual tags (s.withReals x₀) fun point state => IsReal s point ∧ state.stepSize = 1 where
  start := rfl
  stop _ _ := rfl
  step := by
    rintro point state ⟨⟨x, rfl⟩, hone⟩
    refine step_congr fun linear hlinear => ?_
    have hattempt := attempt_eq_full h hlinear (hsolver x) hdecrease hdecrease' hslope hsteps
    rw [hone]
    exact (StandardSearch.search_backtracking ..).trans
      (hattempt.trans (StandardSearch.search_fixed ..).symm)
  holds_start := by
    rintro state hstart
    obtain rfl := Except.ok.inj hstart
    exact ⟨⟨x₀, rfl⟩, rfl⟩
  holds_step := by
    rintro point state point' state' aux ⟨⟨x, rfl⟩, hone⟩ hstep
    obtain ⟨linear, found, diff, hlinear, hsearch, -, rfl, -, rfl⟩ := step_eq_ok.mp hstep
    rw [hone] at hsearch
    exact full_found h hlinear (hsolver x) ((StandardSearch.search_fixed ..).symm.trans hsearch)

end Run

/-- **Backtracking on an affine residual.** At any real point, and whatever the trials before it were,
a trial along the Newton step is accepted exactly if its step size is not above `2 (1 - slope)` or the
step does not change the residual. So a method that backtracks from full steps, under any slope up to
one half, visits the same points and states as the method of full steps, and its solves are the same
solves. The linear solver may fail wherever it likes. -/
theorem solve_backtracking_eq_full [Dense.Kernels Exact] {y : Tree κ Exact}
    {A : Matrix (Fin m) (Fin y.size) ℝ} {b : Fin m → ℝ} {x₀ : Fin y.size → ℝ}
    (hy : y.leaves = vector x₀) (h : residual.ActsAffinely y A b) {strategy : Dense.Strategy}
    {config : Config} (hsolver : ∀ x, SolvesNormalEquations strategy config.tags A (A *ᵥ x - b)) :
    (∀ (decrease slope cap : ℝ) (maxSteps : Nat) (x z : Fin y.size → ℝ)
        (linear : Linearization κ Exact Aux) (init : Exact),
      residual.linearize (y.withReals x) = .ok linear →
      Dense.solve strategy (toDense A) (vector (A *ᵥ x - b)) config.tags = .ok (vector z) →
      ∀ (stepSize : ℝ) (remaining trial : Nat) (best : Option (Trial κ Exact Aux)), 0 < stepSize →
        (Backtracking.AcceptsTrial ⟨real decrease, real slope, real cap, maxSteps⟩
            residual.objective (NewtonDescent.toDescent ⟨none, strategy⟩) (y.withReals x)
            (searchOptions linear config.tags (y.withReals x) init) remaining trial (real stepSize)
            best ↔
          A *ᵥ z = 0 ∨ stepSize ≤ 2 * (1 - slope))) ∧
    ∀ (decrease slope : ℝ) (maxSteps : Nat) (tolerance : Tolerance Exact) (norm : Norm Exact),
      0 < decrease → decrease ≤ 1 → slope ≤ 1 / 2 → 1 ≤ maxSteps →
      let backtracking : IterativeSolver κ Exact Aux (GaussNewtonState κ Exact) :=
        (newton tolerance norm ⟨none, strategy⟩
          (.backtracking ⟨real decrease, real slope, real 1, maxSteps⟩)).toSolver
      let full : IterativeSolver κ Exact Aux (GaussNewtonState κ Exact) :=
        (newton tolerance norm ⟨none, strategy⟩ (.fixed .full)).toSolver
      (∀ k, backtracking.iterateAt residual config.tags y k =
          full.iterateAt residual config.tags y k) ∧
        backtracking.solve residual y config = full.solve residual y config := by
  constructor
  · intro decrease slope cap maxSteps x z linear init hlinear hsolve stepSize remaining trial best
      hpos
    obtain ⟨z', hz', hnormal⟩ := hsolver x _ hsolve
    obtain rfl := vector_injective hz'
    exact acceptsTrial_newton_iff h hlinear hsolve hnormal hpos init remaining trial best
  · intro decrease slope maxSteps tolerance norm hdecrease hdecrease' hslope hsteps backtracking full
    have hlike := backtracking_stepsLike_full h x₀ hsolver hdecrease hdecrease' hslope hsteps tolerance
      norm
    rw [withReals_of_leaves hy] at hlike
    exact ⟨hlike.iterateAt, hlike.solve config.maxSteps config.throw⟩

/-- From zero the Newton step on twice the point less six leads to three. With a slope of a tenth, one
and a half times that step is accepted and twice the step is not; and the run that backtracks ends at
three as the run of full steps does. -/
theorem solve_backtracking_eq_full_line :
    (Tree.scalar (real 0) : Tree Unit Exact).leaves = vector ![0] ∧
      doubledLessSix.ActsAffinely (.scalar (real 0)) !![2] ![6] ∧
      (∀ x, SolvesNormalEquations .standard {} !![2] (!![2] *ᵥ x - ![6])) ∧
      (∃ linear, doubledLessSix.linearize (.scalar (real 0)) = .ok linear ∧
        let Accepts (stepSize : ℝ) : Prop :=
          Backtracking.AcceptsTrial ⟨real (1 / 2), real (1 / 10), real 1, 20⟩
            doubledLessSix.objective (NewtonDescent.toDescent {}) (.scalar (real 0))
            (searchOptions linear {} (.scalar (real 0)) 1) 19 0 (real stepSize) none
        Accepts (3 / 2) ∧ ¬Accepts 2) ∧
      ∃ state, (newton ⟨real 0, real 1⟩ .max {}
          (.backtracking ⟨real (1 / 2), real (1 / 10), real 1, 20⟩)).toSolver.solve doubledLessSix
            (.scalar (real 0)) {} = .ok ⟨.scalar (real 3), .successful, (), 3, state⟩ := by
  have hleaves : (Tree.scalar (real 0) : Tree Unit Exact).leaves = vector ![0] :=
    (vector_one ![0]).symm
  have haffine : doubledLessSix.ActsAffinely (.scalar (real 0)) !![2] ![6] :=
    doubledLessSix_isAffine.linearizesAt
  have hsolver (x : Fin 1 → ℝ) :
      SolvesNormalEquations .standard {} !![2] (!![2] *ᵥ x - ![6]) := solvesNormalEquations_single _ _
  obtain ⟨htrial, hrun⟩ := @solve_backtracking_eq_full Unit Unit 1 doubledLessSix _
    (.scalar (real 0)) !![2] ![6] ![0] hleaves haffine .standard {} hsolver
  refine ⟨hleaves, haffine, hsolver, ?_, ?_⟩
  · obtain ⟨linear, hlinear, -, -⟩ := (haffine ![0]).linearize
    have hsolve : Dense.solve .standard (toDense !![2]) (vector (!![2] *ᵥ ![0] - ![6])) {} =
        .ok (vector ![-3]) := by
      rw [solve_single (by simp), vector_one, vector_one]
      norm_num [mulVec_one]
    have haccepts (stepSize : ℝ) (hpos : 0 < stepSize) :=
      htrial (1 / 2) (1 / 10) 1 20 ![0] ![-3] linear 1 hlinear hsolve stepSize 19 0 none hpos
    have hmoves : (!![2] : Matrix (Fin 1) (Fin 1) ℝ) *ᵥ ![-3] ≠ 0 := by
      rw [mulVec_one]
      intro hzero
      have hentry := congrFun hzero 0
      norm_num at hentry
    refine ⟨linear, hlinear, (haccepts (3 / 2) (by norm_num)).mpr (.inr (by norm_num)), fun h => ?_⟩
    rcases (haccepts 2 two_pos).mp h with hzero | hle
    · exact hmoves hzero
    · norm_num at hle
  · obtain ⟨state, hfull⟩ := solve_doubledLessSix
    have hsame := (hrun (1 / 2) (1 / 10) 20 ⟨real 0, real 1⟩ .max (by norm_num) (by norm_num)
      (by norm_num) (by decide)).2
    exact ⟨state, hsame.trans hfull⟩

end LeastSquares
