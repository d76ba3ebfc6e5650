import LeastSquares.Proofs.Exact.Minimiser
import LeastSquares.Proofs.Iteration.Newton
import LeastSquares.Proofs.LineSearch.FirstTrial

/-!
# Backtracking along a Newton step

With the normal equations solved, the change that a Newton step predicts is never positive, whatever
norm the direction is brought to unit length in. So a trial that backtracking accepts is no worse than
the present point, and a search that fails stays where it is. Only a search whose trials run out may
end higher up, because it answers the best of them. Every trial has a positive step size, and so has
the start of the next search.
-/

namespace LeastSquares

open Matrix Exact LeastSquares.Tree GaussNewton

variable {κ Aux : Type} {residual : Residual κ Exact Aux} {s : Tree κ Exact}

/-- Wherever a residual is real on a skeleton, its derivative there is a matrix. -/
def Residual.HasLinearTangents (residual : Residual κ Exact Aux) (s : Tree κ Exact) : Prop :=
  ∀ (x : Fin s.size → ℝ) (m : Nat) (r : Fin m → ℝ) (t : Tree κ Exact) (aux : Aux),
    residual.value (s.withReals x) = .ok (t, aux) → t.leaves = vector r →
    ∃ J : Matrix (Fin m) (Fin s.size) ℝ, ActsAs (residual.tangent (s.withReals x)) s J

/-- Wherever a residual is real on a skeleton, a dense solve of its Jacobian against its value, if
there is an answer, solves the normal equations. -/
def Residual.SolvedNormally [Dense.Kernels Exact] (residual : Residual κ Exact Aux)
    (s : Tree κ Exact) (strategy : Dense.Strategy) (tags : Tags) : Prop :=
  ∀ (x : Fin s.size → ℝ) (m : Nat) (r : Fin m → ℝ) (J : Matrix (Fin m) (Fin s.size) ℝ),
    residual.LinearizesAt s x r J → SolvesNormalEquations strategy tags J r

/-- The objective at one point is at most the objective at another. -/
def NoHigher (residual : Residual κ Exact Aux) (y' y : Tree κ Exact) : Prop :=
  ∃ f' aux' f aux, residual.objective y' = .ok (f', aux') ∧ residual.objective y = .ok (f, aux) ∧
    f' ≤ f

/-- Some vector of real numbers in the skeleton. -/
def IsReal (s t : Tree κ Exact) : Prop := ∃ x, t = s.withReals x

/-- A real number above zero. -/
def IsPositive (a : Exact) : Prop := ∃ c : ℝ, 0 < c ∧ a = real c

theorem IsPositive.mul {a : Exact} (h : IsPositive a) {d : ℝ} (hd : 0 < d) :
    IsPositive (a * real d) := by
  obtain ⟨c, hc, rfl⟩ := h
  exact ⟨c * d, mul_pos hc hd, rfl⟩

/-- What a search leaves behind: a real point and a positive step size, and unless the trials ran out
no higher objective. -/
structure Lowers (residual : Residual κ Exact Aux) (s y : Tree κ Exact)
    (found : LineSearchSolution κ Exact Aux) : Prop where
  point : IsReal s found.value
  stepSize : IsPositive found.state.nextInit
  objective : found.status ≠ .maxStepsReached → NoHigher residual found.value y

section Search

variable {x : Fin s.size → ℝ} {linear : Linearization κ Exact Aux}

theorem objective_of_linearize {y : Tree κ Exact} (h : residual.linearize y = .ok linear) :
    residual.objective y = .ok (sumSquares linear.value, linear.aux) := by
  obtain ⟨⟨t, aux⟩, hvalue, hlinear⟩ := Outcome.bind_eq_ok.mp h
  cases hlinear
  simp [Residual.objective, hvalue]

/-- A search that stays leaves the objective as it is. -/
theorem lowers_stay (h : residual.linearize (s.withReals x) = .ok linear)
    (tags : Tags) {init : Exact} (hinit : IsPositive init) (status : Status) (numSteps : Nat) :
    Lowers residual s (s.withReals x)
      (.stay (s.withReals x) (searchOptions linear tags (s.withReals x) init) status numSteps) where
  point := ⟨x, rfl⟩
  stepSize := hinit
  objective _ := ⟨_, _, _, _, objective_of_linearize h, objective_of_linearize h, Exact.le_refl _⟩

section Compute

variable [Dense.Kernels Exact] {m : Nat} {r : Fin m → ℝ} {J : Matrix (Fin m) (Fin s.size) ℝ}
  {strategy : Dense.Strategy} {tags : Tags}

/-- Newton's descent, when it succeeds, has solved the normal equations, and goes back along the
solution. -/
theorem solution_of_compute (hvalue : linear.value.leaves = vector r)
    (htangent : ActsAs linear.tangent s J) (hnormal : SolvesNormalEquations strategy tags J r)
    {norm : Option (Norm Exact)} {stepSize init : Exact} {step : DescentStep κ Exact}
    (h : (⟨norm, strategy⟩ : NewtonDescent Exact).compute stepSize
      (searchOptions linear tags (s.withReals x) init).descentOptions = .ok step)
    (hsuccess : step.status = .successful) :
    ∃ z, Dense.solve strategy (toDense J) (vector r) tags = .ok (vector z) ∧
      Jᵀ *ᵥ (J *ᵥ z - r) = 0 ∧
      step.diff = (NewtonDescent.normalize norm (s.withReals z)).scale (-stepSize) := by
  obtain ⟨solution, hsolution, hstep⟩ := Outcome.bind_eq_ok.mp h
  cases hstep
  obtain ⟨xs, hxs, hrebuild⟩ :=
    dense_of_solve htangent (size_of_leaves hvalue) hvalue hsolution hsuccess
  obtain ⟨z, rfl, hz⟩ := hnormal xs hxs
  rw [rebuild_withReals] at hrebuild
  rw [← Except.ok.inj hrebuild]
  exact ⟨z, hxs, hz, rfl⟩

/-- Newton's descent, when it succeeds, answers a real step along which nothing is predicted to
grow. -/
theorem compute_descends (hvalue : linear.value.leaves = vector r)
    (htangent : ActsAs linear.tangent s J) (hnormal : SolvesNormalEquations strategy tags J r)
    (norm : Option (Norm Exact)) {stepSize init : Exact} (hstep : IsPositive stepSize)
    {step : DescentStep κ Exact}
    (h : (⟨norm, strategy⟩ : NewtonDescent Exact).compute stepSize
      (searchOptions linear tags (s.withReals x) init).descentOptions = .ok step)
    (hsuccess : step.status = .successful) :
    ∃ p, step.diff = s.withReals p ∧ 2 * (r ⬝ᵥ J *ᵥ p) ≤ 0 := by
  obtain ⟨c, hc, rfl⟩ := hstep
  obtain ⟨z, -, hz, hdiff⟩ := solution_of_compute hvalue htangent hnormal h hsuccess
  obtain ⟨t, ht, hnormalize⟩ := normalize_withReals norm s z
  refine ⟨-(c * t) • z, ?_, predicted_nonpos hz (mul_pos hc ht).le⟩
  rw [hdiff, hnormalize, real_neg, scale_withReals, smul_smul, neg_mul]

end Compute

end Search

section Trials

variable {decrease slope cap : ℝ} {maxSteps : Nat}

theorem nextInit_positive (hdecrease : 0 < decrease) (hcap : 0 < cap) (trial : Nat) {stepSize : Exact}
    (h : IsPositive stepSize) :
    IsPositive
      (Backtracking.nextInit ⟨real decrease, real slope, real cap, maxSteps⟩ trial stepSize) := by
  obtain ⟨c, hc, rfl⟩ := h
  unfold Backtracking.nextInit
  split
  · exact ⟨min (c / decrease) cap, lt_min (div_pos hc hdecrease) hcap,
      by rw [real_div c hdecrease.ne', min_real]⟩
  · exact ⟨c, hc, rfl⟩

/-- A trial that is accepted is no higher than the present point, when nothing was predicted to
grow. -/
theorem le_of_sufficient (hslope : 0 ≤ slope) {present predicted : ℝ} (hpredicted : predicted ≤ 0)
    {f : Exact} (hf : Scalar.isFinite f = true)
    (h : Backtracking.sufficient ⟨real decrease, real slope, real cap, maxSteps⟩ (real present)
      (some (real predicted)) f = true) : f ≤ real present := by
  obtain ⟨g, rfl⟩ := isFinite_iff.mp hf
  have hle : g ≤ present + slope * predicted := by simpa [Backtracking.sufficient] using h
  have hfraction : slope * predicted ≤ 0 := mul_nonpos_of_nonneg_of_nonpos hslope hpredicted
  exact real_le_real (by linarith)

/-- A real trial point at a positive step size. -/
def IsRealTrial (s : Tree κ Exact) (trial : Trial κ Exact Aux) : Prop :=
  IsReal s trial.value ∧ IsPositive trial.stepSize

variable [Dense.Kernels Exact] {x : Fin s.size → ℝ} {linear : Linearization κ Exact Aux} {m : Nat}
  {r : Fin m → ℝ} {J : Matrix (Fin m) (Fin s.size) ℝ} {strategy : Dense.Strategy} {tags : Tags}

/-- The induction is on the trials that are left; the best trial so far and the present step size are
carried along. -/
theorem trials_lowers (hlinear : residual.linearize (s.withReals x) = .ok linear)
    (hvalue : linear.value.leaves = vector r) (htangent : ActsAs linear.tangent s J)
    (hnormal : SolvesNormalEquations strategy tags J r) (hdecrease : 0 < decrease)
    (hslope : 0 ≤ slope) (hcap : 0 < cap) (norm : Option (Norm Exact)) {init : Exact}
    (hinit : IsPositive init) (remaining : Nat) :
    ∀ (trial : Nat) (stepSize : Exact) (best : Option (Trial κ Exact Aux))
      (found : LineSearchSolution κ Exact Aux),
      IsPositive stepSize → (∀ earlier ∈ best, IsRealTrial s earlier) →
      Backtracking.trials ⟨real decrease, real slope, real cap, maxSteps⟩ residual.objective
          (NewtonDescent.toDescent ⟨norm, strategy⟩) (s.withReals x)
          (searchOptions linear tags (s.withReals x) init) remaining trial stepSize best =
        .ok found →
      Lowers residual s (s.withReals x) found := by
  induction remaining with
  | zero =>
      intro trial stepSize best found _ hbest hfound
      cases hfound
      cases best with
      | none => exact lowers_stay hlinear tags hinit _ _
      | some earlier =>
          exact ⟨(hbest earlier rfl).1, (hbest earlier rfl).2, fun hstatus => absurd rfl hstatus⟩
  | succ remaining ih =>
      intro trial stepSize best found hstep hbest hfound
      obtain ⟨step, hcompute, hrest⟩ := Outcome.bind_eq_ok.mp hfound
      by_cases hsuccess : step.status.isSuccessful = true
      · rw [if_pos hsuccess] at hrest
        obtain ⟨p, hdiff, hpredicted⟩ := compute_descends hvalue htangent hnormal norm hstep hcompute
          ((Status.isSuccessful_iff _).mp hsuccess)
        obtain ⟨value, hadd, hrest⟩ := Outcome.bind_eq_ok.mp hrest
        rw [Outcome.liftM_eq_toOutcome, Checked.toOutcome_eq_ok, hdiff, add_withReals] at hadd
        cases hadd
        obtain ⟨⟨f, aux⟩, hobjective, hrest⟩ := Outcome.bind_eq_ok.mp hrest
        rw [Outcome.liftM_eq_toOutcome, Checked.toOutcome_eq_ok] at hobjective
        dsimp only at hrest
        have hsmaller := hstep.mul hdecrease
        by_cases hfinite : Scalar.isFinite f = true
        · rw [if_pos hfinite] at hrest
          obtain ⟨predicted, hchange, hrest⟩ := Outcome.bind_eq_ok.mp hrest
          rw [Outcome.liftM_eq_toOutcome, Checked.toOutcome_eq_ok, hdiff,
            predictedChange_withReals hvalue htangent] at hchange
          cases hchange
          split at hrest
          · rename_i haccepted
            cases hrest
            refine ⟨⟨x + p, rfl⟩, nextInit_positive hdecrease hcap trial hstep, fun _ => ?_⟩
            refine ⟨f, aux, _, _, hobjective, objective_of_linearize hlinear, ?_⟩
            have hpresent := sumSquares_of_leaves hvalue
            rw [hpresent]
            apply le_of_sufficient hslope hpredicted hfinite
            rwa [searchOptions, hpresent] at haccepted
          · exact ih _ _ _ found hsmaller
              (Backtracking.forall_mem_better hbest ⟨⟨x + p, rfl⟩, hstep⟩) hrest
        · rw [if_neg hfinite] at hrest
          exact ih _ _ _ found hsmaller hbest hrest
      · rw [if_neg hsuccess] at hrest
        cases hrest
        exact lowers_stay hlinear tags hinit _ _

end Trials

/-- The searches of a method from real points with positive step sizes do not raise the objective. -/
def SearchesLower (method : GaussNewton κ Exact Aux) (residual : Residual κ Exact Aux)
    (s : Tree κ Exact) (tags : Tags) : Prop :=
  ∀ (x : Fin s.size → ℝ) (linear : Linearization κ Exact Aux) (init : Exact)
    (found : LineSearchSolution κ Exact Aux),
    residual.linearize (s.withReals x) = .ok linear → IsPositive init →
    method.lineSearch.search residual.objective method.descent (s.withReals x)
        (searchOptions linear tags (s.withReals x) init) false = .ok found →
    Lowers residual s (s.withReals x) found

/-- Backtracking along Newton's descent does not raise the objective. -/
theorem newton_searchesLower [Dense.Kernels Exact] {decrease slope cap : ℝ}
    {strategy : Dense.Strategy} {tags : Tags} (hlinearTangents : residual.HasLinearTangents s)
    (hnormal : residual.SolvedNormally s strategy tags) (hdecrease : 0 < decrease)
    (hslope : 0 ≤ slope) (hcap : 0 < cap) (tolerance : Tolerance Exact) (norm : Norm Exact)
    (normalization : Option (Norm Exact)) (maxSteps : Nat) :
    SearchesLower
      (newton tolerance norm ⟨normalization, strategy⟩
        (.backtracking ⟨real decrease, real slope, real cap, maxSteps⟩))
      residual s tags := by
  intro x linear init found hlinear hinit hsearch
  have hattempt := (StandardSearch.search_backtracking ..).symm.trans hsearch
  unfold Backtracking.attempt at hattempt
  split at hattempt
  · rename_i hfinite
    obtain ⟨r, hr⟩ := exists_vector_of_sumSquaresOf hfinite
    obtain ⟨⟨t, aux⟩, hvalue, heq⟩ := Outcome.bind_eq_ok.mp hlinear
    cases heq
    obtain ⟨J, hJ⟩ := hlinearTangents x _ r t aux hvalue hr
    exact trials_lowers hlinear hr hJ (hnormal x _ r J ⟨⟨t, aux, hvalue, hr⟩, hJ⟩) hdecrease hslope
      hcap normalization hinit maxSteps 0 init none _ hinit (fun _ hnone => nomatch hnone) hattempt
  · cases hattempt
    exact lowers_stay hlinear tags hinit _ _

end LeastSquares
