import LeastSquares.Proofs.Exact.Backtracking
import LeastSquares.Proofs.Exact.SingleUnknown
import LeastSquares.Proofs.LineSearch.FirstAcceptable

/-!
# Backtracking does not raise the objective

A method whose searches do not raise the objective goes along real points with positive step sizes,
which is the invariant of its run. From one iterate to the next the objective does not grow, unless
the search between them ran out of trials; and since a state remembers the last two objectives, these
do not grow either. Newton's descent with backtracking is such a method (`objective_antitone`).
-/

namespace LeastSquares

open Matrix Exact LeastSquares.Tree GaussNewton

variable {κ Aux : Type} {residual : Residual κ Exact Aux} {s : Tree κ Exact}

/-! ### Runs whose searches do not raise the objective -/

section Run

variable {method : GaussNewton κ Exact Aux} {tags : Tags}

/-- What a step comes to: a real point, a positive step size and, unless its search ran out of trials,
no higher objective; and it remembers the objective at its start and the one remembered before. -/
structure StepLowers (method : GaussNewton κ Exact Aux) (residual : Residual κ Exact Aux)
    (s : Tree κ Exact) (tags : Tags) (y : Tree κ Exact) (state : GaussNewtonState κ Exact)
    (y' : Tree κ Exact) (state' : GaussNewtonState κ Exact) : Prop where
  point : IsReal s y'
  stepSize : IsPositive state'.stepSize
  search : ∃ found, method.searchAt residual tags y state = .ok found ∧
    (found.status ≠ .maxStepsReached → NoHigher residual y' y)
  objective : ∃ aux, residual.objective y = .ok (state'.objective, aux)
  previous : state'.previous = state.objective

theorem step_lowers (hsearches : SearchesLower method residual s tags) {y y' : Tree κ Exact}
    {state state' : GaussNewtonState κ Exact} {aux : Aux} (hy : IsReal s y)
    (hstate : IsPositive state.stepSize)
    (h : method.step residual tags y state = .ok (y', state', aux)) :
    StepLowers method residual s tags y state y' state' := by
  obtain ⟨linear, found, diff, hlinear, hsearch, -, rfl, -, rfl⟩ := step_eq_ok.mp h
  obtain ⟨x, rfl⟩ := hy
  have hlowers := hsearches x linear state.stepSize found hlinear hstate hsearch
  refine ⟨hlowers.point, hlowers.stepSize, ⟨found, ?_, hlowers.objective⟩,
    ⟨linear.aux, objective_of_linearize hlinear⟩, rfl⟩
  rw [searchAt_of_linearize hlinear]
  exact hsearch

/-- Every iterate is a real point with a positive step size. -/
theorem iterateAt_real (hsearches : SearchesLower method residual s tags) {y : Tree κ Exact}
    (hy : IsReal s y) (k : Nat) :
    ∀ it, method.toSolver.iterateAt residual tags y k = .ok it →
      IsReal s it.point ∧ IsPositive it.state.stepSize := by
  induction k with
  | zero =>
      intro it hit
      obtain ⟨state, hstart, rfl⟩ := IterativeSolver.iterateAt_zero_eq_ok.mp hit
      cases hstart
      exact ⟨hy, 1, one_pos, rfl⟩
  | succ k ih =>
      intro it hit
      obtain ⟨before, hbefore, hadvance⟩ := IterativeSolver.iterateAt_succ_eq_ok.mp hit
      obtain ⟨y', state', aux, hstep, rfl⟩ := IterativeSolver.advance_eq_ok.mp hadvance
      have hlowers := step_lowers hsearches (ih before hbefore).1 (ih before hbefore).2 hstep
      exact ⟨hlowers.point, hlowers.stepSize⟩

/-- Consecutive iterates are the two ends of a step. -/
theorem iterateAt_lowers (hsearches : SearchesLower method residual s tags) {y : Tree κ Exact}
    (hy : IsReal s y) {k : Nat} {it it' : Iterate κ Exact Aux (GaussNewtonState κ Exact)}
    (hit : method.toSolver.iterateAt residual tags y k = .ok it)
    (hit' : method.toSolver.iterateAt residual tags y (k + 1) = .ok it') :
    StepLowers method residual s tags it.point it.state it'.point it'.state := by
  obtain ⟨hpoint, hstepSize⟩ := iterateAt_real hsearches hy k it hit
  rw [IterativeSolver.iterateAt_succ hit] at hit'
  obtain ⟨y', state', aux, hstep, rfl⟩ := IterativeSolver.advance_eq_ok.mp hit'
  exact step_lowers hsearches hpoint hstepSize hstep

/-- The search of the step from the iterate after `k` steps ends because its trials have run out. -/
def SearchExhaustedAt (method : GaussNewton κ Exact Aux) (residual : Residual κ Exact Aux)
    (tags : Tags) (y : Tree κ Exact) (k : Nat) : Prop :=
  ∃ it found, method.toSolver.iterateAt residual tags y k = .ok it ∧
    method.searchAt residual tags it.point it.state = .ok found ∧ found.status = .maxStepsReached

theorem noHigher_of_not_exhausted (hsearches : SearchesLower method residual s tags)
    {y : Tree κ Exact} (hy : IsReal s y) {k : Nat}
    {it it' : Iterate κ Exact Aux (GaussNewtonState κ Exact)}
    (hit : method.toSolver.iterateAt residual tags y k = .ok it)
    (hit' : method.toSolver.iterateAt residual tags y (k + 1) = .ok it')
    (h : ¬SearchExhaustedAt method residual tags y k) :
    NoHigher residual it'.point it.point := by
  obtain ⟨found, hfound, hlowers⟩ := (iterateAt_lowers hsearches hy hit hit').search
  exact hlowers fun hstatus => h ⟨it, found, hit, hfound, hstatus⟩

/-- The objectives that a state remembers do not grow either. The last step before the one that is
remembered last is the only one that counts. -/
theorem objective_le_previous (hsearches : SearchesLower method residual s tags) {y : Tree κ Exact}
    (hy : IsReal s y) {k : Nat} {it : Iterate κ Exact Aux (GaussNewtonState κ Exact)}
    (hit : method.toSolver.iterateAt residual tags y k = .ok it)
    (h : ∀ j, j + 2 = k → ¬SearchExhaustedAt method residual tags y j)
    (hnumber : Scalar.isNaN it.state.objective = false) :
    it.state.objective ≤ it.state.previous := by
  match k with
  | 0 =>
      obtain ⟨state, hstart, rfl⟩ := IterativeSolver.iterateAt_zero_eq_ok.mp hit
      cases hstart
      exact Exact.le_refl _
  | 1 =>
      obtain ⟨before, hbefore, -⟩ := IterativeSolver.iterateAt_succ_eq_ok.mp hit
      rw [(iterateAt_lowers hsearches hy hbefore hit).previous]
      obtain ⟨state, hstart, rfl⟩ := IterativeSolver.iterateAt_zero_eq_ok.mp hbefore
      cases hstart
      exact le_posInf hnumber
  | k + 2 =>
      obtain ⟨middle, hmiddle, -⟩ := IterativeSolver.iterateAt_succ_eq_ok.mp hit
      obtain ⟨before, hbefore, -⟩ := IterativeSolver.iterateAt_succ_eq_ok.mp hmiddle
      have hlast := iterateAt_lowers hsearches hy hmiddle hit
      have hfirst := iterateAt_lowers hsearches hy hbefore hmiddle
      obtain ⟨f', aux', f, aux, hf', hf, hle⟩ :=
        noHigher_of_not_exhausted hsearches hy hbefore hmiddle (h k rfl)
      obtain ⟨aux₁, hobjective⟩ := hlast.objective
      obtain ⟨aux₂, hprevious⟩ := hfirst.objective
      cases hf'.symm.trans hobjective
      cases hf.symm.trans hprevious
      rw [hlast.previous]
      exact hle

end Run

/-- **Backtracking does not raise the objective.** For a residual with linear tangents, whose
Jacobians are solved normally, and along every run from real numbers: the objective at the next
iterate is at most the objective at the present one unless the search between them ran out of trials;
and as long as no search does, a state remembers objectives in falling order. -/
theorem objective_antitone [Dense.Kernels Exact] {y : Tree κ Exact} {x : Fin y.size → ℝ}
    (hy : y.leaves = vector x) (hlinearTangents : residual.HasLinearTangents y)
    {strategy : Dense.Strategy} {tags : Tags} (hnormal : residual.SolvedNormally y strategy tags)
    {decrease slope cap : ℝ} (hdecrease : 0 < decrease) (hslope : 0 ≤ slope) (hcap : 0 < cap)
    (maxSteps : Nat) (tolerance : Tolerance Exact) (norm : Norm Exact)
    (normalization : Option (Norm Exact)) :
    let method : GaussNewton κ Exact Aux := newton tolerance norm ⟨normalization, strategy⟩
      (.backtracking ⟨real decrease, real slope, real cap, maxSteps⟩)
    (∀ k it it', method.toSolver.iterateAt residual tags y k = .ok it →
        method.toSolver.iterateAt residual tags y (k + 1) = .ok it' →
        ¬SearchExhaustedAt method residual tags y k → NoHigher residual it'.point it.point) ∧
      ∀ k it, method.toSolver.iterateAt residual tags y k = .ok it →
        (∀ j, j + 2 = k → ¬SearchExhaustedAt method residual tags y j) →
        Scalar.isNaN it.state.objective = false → it.state.objective ≤ it.state.previous := by
  intro method
  have hsearches : SearchesLower method residual y tags :=
    newton_searchesLower hlinearTangents hnormal hdecrease hslope hcap tolerance norm normalization
      maxSteps
  have hreal : IsReal y y := ⟨x, (withReals_of_leaves hy).symm⟩
  exact ⟨fun k it it' hit hit' h => noHigher_of_not_exhausted hsearches hreal hit hit' h,
    fun k it hit h hnumber => objective_le_previous hsearches hreal hit h hnumber⟩

/-! ### The square less two -/

section SquareLessTwo

/-- The square of the point, less two. -/
noncomputable def squareLessTwo : Residual Unit Exact Unit where
  value t := .ok (t.map fun x => x * x - Scalar.ofNat 2, ())
  tangent t v := v.zipWith (fun d x => Scalar.ofNat 2 * x * d) t

theorem squareLessTwo_value (a : ℝ) :
    squareLessTwo.value (.scalar (real a)) = .ok (.scalar (real (a * a - 2)), ()) := by
  show Except.ok (Tree.scalar (real a * real a - real (2 : ℕ)), ()) = _
  rw [real_mul, real_sub, Nat.cast_ofNat]

theorem squareLessTwo_tangent (a b : ℝ) :
    squareLessTwo.tangent (.scalar (real a)) (.scalar (real b)) =
      .ok (.scalar (real (2 * a * b))) := by
  show Except.ok (Tree.scalar (real ((2 : ℕ) * a * b))) = _
  rw [Nat.cast_ofNat]

/-- Whatever number of rows is asked for, there is one. -/
theorem squareLessTwo_rows {a : ℝ} {m : Nat} {r : Fin m → ℝ} {t : Tree Unit Exact} {aux : Unit}
    (h : squareLessTwo.value (.scalar (real a)) = .ok (t, aux)) (hr : t.leaves = vector r) :
    m = 1 := by
  rw [squareLessTwo_value] at h
  cases h
  simpa [leaves] using (congrArg List.length hr).symm

theorem squareLessTwo_hasLinearTangents (start : Exact) :
    squareLessTwo.HasLinearTangents (.scalar start) := by
  intro (x : Fin 1 → ℝ) m r t aux hvalue hr
  obtain rfl := squareLessTwo_rows hvalue hr
  refine ⟨Matrix.of fun _ _ => 2 * x 0, fun (v : Fin 1 → ℝ) =>
    ⟨_, squareLessTwo_tangent (x 0) (v 0), ?_⟩⟩
  show [real (2 * x 0 * v 0)] = vector (Matrix.of (fun _ _ => 2 * x 0) *ᵥ v)
  rw [mulVec_one, vector_one]
  rfl

theorem squareLessTwo_solvedNormally (start : Exact) :
    squareLessTwo.SolvedNormally (.scalar start) .standard {} := by
  intro x m r J h
  obtain ⟨t, aux, hvalue, hr⟩ := h.value
  obtain rfl := squareLessTwo_rows hvalue hr
  exact solvesNormalEquations_single J r

theorem squareLessTwo_linearizesAt (start : Exact) (a : ℝ) :
    squareLessTwo.LinearizesAt (.scalar start) ![a] ![a * a - 2] !![2 * a] := by
  refine ⟨⟨_, (), squareLessTwo_value a, ?_⟩, fun (v : Fin 1 → ℝ) =>
    ⟨_, squareLessTwo_tangent a (v 0), ?_⟩⟩
  · rw [vector_one]
    rfl
  · show [real (2 * a * v 0)] = vector (!![2 * a] *ᵥ v)
    rw [mulVec_one, vector_one]
    rfl

theorem squareLessTwo_linear (a : ℝ) :
    ∃ linear, squareLessTwo.linearize (.scalar (real a)) = .ok linear ∧
      linear.value.leaves = vector ![a * a - 2] ∧
      ActsAs linear.tangent (.scalar (real a)) !![2 * a] :=
  (squareLessTwo_linearizesAt (real a) a).linearize

theorem squareLessTwo_objective (a : ℝ) :
    squareLessTwo.objective (.scalar (real a)) = .ok (real ((a * a - 2) * (a * a - 2)), ()) := by
  simp [Residual.objective, squareLessTwo_value, sumSquares, leaves, sumSquaresOf, Scalar.sum]

theorem squareLessTwo_sumSquares {linear : Linearization Unit Exact Unit} {a : ℝ}
    (hvalue : linear.value.leaves = vector ![a * a - 2]) :
    sumSquares linear.value = real ((a * a - 2) * (a * a - 2)) := by
  refine (sumSquares_of_leaves hvalue).trans ?_
  simp [dotProduct]

/-! ### Trials of halving steps -/

/-- Backtracking by halves with a given cap. -/
noncomputable def cappedHalving (cap : ℝ) : Backtracking Exact :=
  { Backtracking.standard with stepInit := real cap }

theorem cappedHalving_eq (cap : ℝ) :
    cappedHalving cap = ⟨real (1 / 2), real (1 / 10), real cap, 20⟩ := by
  rw [cappedHalving, Backtracking.standard, half_eq, tenth_eq]

theorem stepSizeAt_cappedHalving (cap start : ℝ) (j : ℕ) :
    (cappedHalving cap).stepSizeAt (real start) j = real (start * (1 / 2) ^ j) := by
  induction j with
  | zero =>
      rw [pow_zero, mul_one]
      rfl
  | succ j ih => rw [Backtracking.stepSizeAt, ih, cappedHalving_eq, real_mul, pow_succ, mul_assoc]

section Trials

/-- A trial of a certain size that changes the point. -/
noncomputable def squareLessTwoTrial (a t d : ℝ) : Trial Unit Exact Unit :=
  ⟨.scalar (real (a + d)),
    real (((a + d) * (a + d) - (2 : ℕ)) * ((a + d) * (a + d) - (2 : ℕ))), (), real t⟩

variable {linear : Linearization Unit Exact Unit} {a t d : ℝ} (cap start : ℝ) (j : ℕ)
  (hvalue : linear.value.leaves = vector ![a * a - 2])
  (htangent : ActsAs linear.tangent (.scalar (real a)) !![2 * a])

include hvalue htangent

theorem squareLessTwo_predictedChange (d : ℝ) :
    (searchOptions linear {} (.scalar (real a)) (real start)).predictedChange (.scalar (real d)) =
      .ok (some (real (2 * ((a * a - 2) * (2 * a * d))))) := by
  refine (predictedChange_withReals (s := .scalar (real a)) hvalue htangent {} _ _
    (![d] : Fin 1 → ℝ)).trans ?_
  show Except.ok (some (real (2 * (![a * a - 2] ⬝ᵥ !![2 * a] *ᵥ ![d])))) = _
  rw [mulVec_one]
  simp [dotProduct]

variable (ha : a ≠ 0) (ht : start * (1 / 2) ^ j = t) (hd : -(t * ((a * a - 2) / (2 * a))) = d)

include ha ht hd

/-- The trials of Newton's step. -/
theorem squareLessTwo_trialAt :
    (cappedHalving cap).TrialAt squareLessTwo.objective (NewtonDescent.toDescent {})
      (.scalar (real a)) (searchOptions linear {} (.scalar (real a)) (real start)) j
      (.scalar (real d)) (squareLessTwoTrial a t d) where
  stepSize := by
    rw [← ht]
    exact (stepSizeAt_cappedHalving cap start j).symm
  compute := by
    have hslope : (!![2 * a] : Matrix (Fin 1) (Fin 1) ℝ) 0 0 ≠ 0 := by simpa using ha
    refine (compute_of_dense (s := .scalar (real a)) (x := (![a] : Fin 1 → ℝ)) hvalue htangent
      (solve_single hslope _) t (real start)).trans ?_
    rw [← hd, ← neg_mul]
    rfl
  add := rfl
  objective := squareLessTwo_objective _

theorem squareLessTwo_makesAt :
    (cappedHalving cap).MakesAt squareLessTwo.objective (NewtonDescent.toDescent {})
      (.scalar (real a)) (searchOptions linear {} (.scalar (real a)) (real start)) j
      (squareLessTwoTrial a t d) :=
  ⟨_, squareLessTwo_trialAt cap start j hvalue htangent ha ht hd,
    fun _ => ⟨_, squareLessTwo_predictedChange start hvalue htangent d⟩⟩

theorem squareLessTwo_acceptsAt_iff :
    (cappedHalving cap).AcceptsAt squareLessTwo.objective (NewtonDescent.toDescent {})
        (.scalar (real a)) (searchOptions linear {} (.scalar (real a)) (real start)) j
        (squareLessTwoTrial a t d) ↔
      ((a + d) * (a + d) - 2) * ((a + d) * (a + d) - 2) ≤
        (a * a - 2) * (a * a - 2) + 1 / 10 * (2 * ((a * a - 2) * (2 * a * d))) := by
  have htrial := squareLessTwo_trialAt cap start j hvalue htangent ha ht hd
  have hpresent : (searchOptions linear {} (.scalar (real a)) (real start)).objective =
      real ((a * a - 2) * (a * a - 2)) := squareLessTwo_sumSquares hvalue
  have hlow (f : ℝ) : (cappedHalving cap).LowEnough
      (searchOptions linear {} (.scalar (real a)) (real start)) (.scalar (real d)) (real f) ↔
      f ≤ (a * a - 2) * (a * a - 2) + 1 / 10 * (2 * ((a * a - 2) * (2 * a * d))) := by
    rw [Backtracking.lowEnough_iff, squareLessTwo_predictedChange start hvalue htangent, hpresent,
      cappedHalving_eq]
    simp [Backtracking.sufficient]
  constructor
  · rintro ⟨diff, haccepts, -, hlow'⟩
    obtain ⟨rfl, -⟩ := haccepts.unique htrial
    exact (hlow _).mp hlow'
  · intro hle
    exact ⟨_, htrial, isFinite_real _, (hlow _).mpr hle⟩

end Trials

/-! ### The first steps from two -/

/-- A step goes where its search ended. -/
theorem squareLessTwo_step {linear : Linearization Unit Exact Unit} {a b : ℝ} {init : Exact}
    {numSteps : ℕ} {search : StandardSearch Exact} {state : GaussNewtonState Unit Exact}
    (hlinear : squareLessTwo.linearize (.scalar (real a)) = .ok linear)
    (hvalue : linear.value.leaves = vector ![a * a - 2])
    (hsearch : search.toLineSearch.search squareLessTwo.objective (NewtonDescent.toDescent {})
        (.scalar (real a)) (searchOptions linear {} (.scalar (real a)) state.stepSize) false =
      .ok ⟨.scalar (real b), .successful, ⟨init, numSteps⟩, ()⟩) :
    (newton ⟨real 0, real 1⟩ .max {} search).step squareLessTwo {} (.scalar (real a)) state =
      .ok (.scalar (real b), ⟨init, .scalar (real (b - a)), real ((a * a - 2) * (a * a - 2)),
        state.objective, .successful⟩, ()) := by
  have hdiff : (Tree.scalar (real b) : Tree Unit Exact).sub (.scalar (real a)) =
      .ok (.scalar (real (b - a))) := rfl
  exact step_eq_ok.mpr ⟨linear, _, _, hlinear, hsearch, hdiff, rfl, rfl,
    squareLessTwo_sumSquares hvalue ▸ rfl⟩

/-- From two, the first trial of the first search is enough, and it leaves twice its step size, or the
cap if that is less. -/
theorem squareLessTwo_search_two (cap : ℝ) {linear : Linearization Unit Exact Unit}
    (hvalue : linear.value.leaves = vector ![2 * 2 - 2])
    (htangent : ActsAs linear.tangent (.scalar (real 2)) !![2 * 2]) :
    (cappedHalving cap).toLineSearch.search squareLessTwo.objective (NewtonDescent.toDescent {})
        (.scalar (real 2)) (searchOptions linear {} (.scalar (real 2)) (real 1)) false =
      .ok ⟨.scalar (real (3 / 2)), .successful, ⟨real (min 2 cap), 1⟩, ()⟩ := by
  have hpresent : Scalar.isFinite
      (searchOptions linear {} (.scalar (real 2)) (real 1)).objective = true :=
    (congrArg Scalar.isFinite (squareLessTwo_sumSquares hvalue)).trans (isFinite_real _)
  have haccepts := (squareLessTwo_acceptsAt_iff cap 1 0 hvalue htangent two_ne_zero
    (show (1 : ℝ) * (1 / 2) ^ 0 = 1 by norm_num)
    (show -((1 : ℝ) * ((2 * 2 - 2) / (2 * 2))) = -(1 / 2) by norm_num)).mpr (by norm_num)
  have hinit : (cappedHalving cap).nextInit 0 (squareLessTwoTrial 2 1 (-(1 / 2))).stepSize =
      real (min 2 cap) := by
    rw [squareLessTwoTrial, cappedHalving_eq, Backtracking.nextInit, if_pos rfl,
      real_div 1 (by norm_num), min_real]
    norm_num
  have hlands : (squareLessTwoTrial 2 1 (-(1 / 2))).value = .scalar (real (3 / 2)) := by
    rw [squareLessTwoTrial]
    norm_num
  refine (Backtracking.search_of_passes hpresent (Nat.succ_pos 19) haccepts
    fun j hj => absurd hj (Nat.not_lt_zero j)).trans ?_
  rw [hlands, hinit]

/-- From three halves, a search that starts from two passes over its first trial. -/
theorem squareLessTwo_search_three_halves (cap : ℝ) {linear : Linearization Unit Exact Unit}
    (hvalue : linear.value.leaves = vector ![3 / 2 * (3 / 2) - 2])
    (htangent : ActsAs linear.tangent (.scalar (real (3 / 2))) !![2 * (3 / 2)]) :
    (cappedHalving cap).toLineSearch.search squareLessTwo.objective (NewtonDescent.toDescent {})
        (.scalar (real (3 / 2))) (searchOptions linear {} (.scalar (real (3 / 2))) (real 2)) false =
      .ok ⟨.scalar (real (17 / 12)), .successful, ⟨real 1, 2⟩, ()⟩ := by
  have hpresent : Scalar.isFinite
      (searchOptions linear {} (.scalar (real (3 / 2))) (real 2)).objective = true :=
    (congrArg Scalar.isFinite (squareLessTwo_sumSquares hvalue)).trans (isFinite_real _)
  have hsize : (2 : ℝ) * (1 / 2) ^ 0 = 2 ∧ (2 : ℝ) * (1 / 2) ^ 1 = 1 := by norm_num
  have hchange : -((2 : ℝ) * ((3 / 2 * (3 / 2) - 2) / (2 * (3 / 2)))) = -(1 / 6) ∧
      -((1 : ℝ) * ((3 / 2 * (3 / 2) - 2) / (2 * (3 / 2)))) = -(1 / 12) := by norm_num
  have hpoint : (3 / 2 : ℝ) ≠ 0 := by norm_num
  have hpasses : (cappedHalving cap).PassesAt squareLessTwo.objective (NewtonDescent.toDescent {})
      (.scalar (real (3 / 2))) (searchOptions linear {} (.scalar (real (3 / 2))) (real 2)) 0
      (squareLessTwoTrial (3 / 2) 2 (-(1 / 6))) := by
    refine ⟨squareLessTwo_makesAt cap 2 0 hvalue htangent hpoint hsize.1 hchange.1, ?_⟩
    rw [squareLessTwo_acceptsAt_iff cap 2 0 hvalue htangent hpoint hsize.1 hchange.1]
    norm_num
  have haccepts := (squareLessTwo_acceptsAt_iff cap 2 1 hvalue htangent hpoint hsize.2
    hchange.2).mpr (by norm_num)
  have hlands : (squareLessTwoTrial (3 / 2) 1 (-(1 / 12))).value = .scalar (real (17 / 12)) := by
    rw [squareLessTwoTrial]
    norm_num
  have hbudget : 1 < (cappedHalving cap).maxSteps := Nat.succ_lt_succ (Nat.succ_pos 18)
  have hearlier : ∀ j < 1, ∃ earlier, (cappedHalving cap).PassesAt squareLessTwo.objective
      (NewtonDescent.toDescent {}) (.scalar (real (3 / 2)))
      (searchOptions linear {} (.scalar (real (3 / 2))) (real 2)) j earlier := by
    intro j hj
    obtain rfl := Nat.lt_one_iff.mp hj
    exact ⟨_, hpasses⟩
  refine (Backtracking.search_of_passes hpresent hbudget haccepts hearlier).trans ?_
  rw [hlands]
  rfl

theorem squareLessTwo_iterateAt_one (cap : ℝ) :
    (newton ⟨real 0, real 1⟩ .max {} (.backtracking (cappedHalving cap))).toSolver.iterateAt
        squareLessTwo {} (.scalar (real 2)) 1 =
      .ok ⟨.scalar (real (3 / 2)), ⟨real (min 2 cap), .scalar (real (3 / 2 - 2)),
        real ((2 * 2 - 2) * (2 * 2 - 2)), posInf, .successful⟩, some (), 1⟩ := by
  obtain ⟨linear, hlinear, hvalue, htangent⟩ := squareLessTwo_linear 2
  have hstart : (newton ⟨real 0, real 1⟩ .max {} (.backtracking (cappedHalving cap))).toSolver.iterateAt
      squareLessTwo {} (.scalar (real 2)) 0 =
        .ok ⟨.scalar (real 2), GaussNewton.start (.scalar (real 2)), none, 0⟩ := rfl
  exact IterativeSolver.iterateAt_of_step hstart (squareLessTwo_step hlinear hvalue
    (squareLessTwo_search_two cap hvalue htangent))

/-- The second search starts where the first one ended under the cap. -/
theorem squareLessTwo_iterateAt_two :
    (newton ⟨real 0, real 1⟩ .max {} (.backtracking (cappedHalving 2))).toSolver.iterateAt
        squareLessTwo {} (.scalar (real 2)) 2 =
      .ok ⟨.scalar (real (17 / 12)), ⟨real 1, .scalar (real (17 / 12 - 3 / 2)),
        real ((3 / 2 * (3 / 2) - 2) * (3 / 2 * (3 / 2) - 2)), real ((2 * 2 - 2) * (2 * 2 - 2)),
        .successful⟩, some (), 2⟩ := by
  have hone := squareLessTwo_iterateAt_one 2
  rw [min_self] at hone
  obtain ⟨linear, hlinear, hvalue, htangent⟩ := squareLessTwo_linear (3 / 2)
  exact IterativeSolver.iterateAt_of_step hone (squareLessTwo_step hlinear hvalue
    (squareLessTwo_search_three_halves 2 hvalue htangent))

/-- The method of this library with backtracking by halves. -/
noncomputable def halving : GaussNewton Unit Exact Unit :=
  newton ⟨real 0, real 1⟩ .max {} (.backtracking .standard)

theorem halving_eq :
    halving = newton ⟨real 0, real 1⟩ .max {}
      (.backtracking ⟨real (1 / 2), real (1 / 10), real 1, 20⟩) := by
  rw [halving, Backtracking.standard, half_eq, tenth_eq]
  rfl

theorem halving_iterateAt_one :
    halving.toSolver.iterateAt squareLessTwo {} (.scalar (real 2)) 1 =
      .ok ⟨.scalar (real (3 / 2)), ⟨real 1, .scalar (real (3 / 2 - 2)),
        real ((2 * 2 - 2) * (2 * 2 - 2)), posInf, .successful⟩, some (), 1⟩ := by
  have hone := squareLessTwo_iterateAt_one 1
  rw [min_eq_right one_le_two] at hone
  exact hone

/-- The first step from two with halving steps goes to three halves, and does not raise the
objective. -/
theorem objective_antitone_squareLessTwo :
    ∃ it it', halving.toSolver.iterateAt squareLessTwo {} (.scalar (real 2)) 0 = .ok it ∧
      halving.toSolver.iterateAt squareLessTwo {} (.scalar (real 2)) 1 = .ok it' ∧
      it.point = .scalar (real 2) ∧ it'.point = .scalar (real (3 / 2)) ∧
      NoHigher squareLessTwo it'.point it.point := by
  obtain ⟨linear, hlinear, hvalue, htangent⟩ := squareLessTwo_linear 2
  have hsearch := squareLessTwo_search_two 1 hvalue htangent
  have hit : halving.toSolver.iterateAt squareLessTwo {} (.scalar (real 2)) 0 =
      .ok ⟨.scalar (real 2), GaussNewton.start (.scalar (real 2)), none, 0⟩ := rfl
  have hit' := halving_iterateAt_one
  have hantitone := (@objective_antitone Unit Unit squareLessTwo _ (.scalar (real 2)) ![2]
    (vector_one ![2]).symm (squareLessTwo_hasLinearTangents (real 2)) .standard {}
    (squareLessTwo_solvedNormally (real 2)) (1 / 2) (1 / 10) 1 (by norm_num) (by norm_num) one_pos
    20 ⟨real 0, real 1⟩ .max none).1 0
  rw [← halving_eq] at hantitone
  refine ⟨_, _, hit, hit', rfl, rfl, hantitone _ _ hit hit' ?_⟩
  rintro ⟨it, found, hit₀, hfound, hstatus⟩
  cases hit.symm.trans hit₀
  rw [searchAt_of_linearize hlinear] at hfound
  cases hsearch.symm.trans hfound
  cases hstatus

end SquareLessTwo

end LeastSquares
