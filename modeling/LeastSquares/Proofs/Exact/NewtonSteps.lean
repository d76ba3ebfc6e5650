import Mathlib.Algebra.Order.Star.Real
import Mathlib.LinearAlgebra.Matrix.PosDef
import LeastSquares.Proofs.Exact.LinearMaps
import LeastSquares.Proofs.Exact.Norms

/-!
# Newton's steps

The norms of this library are absolutely homogeneous in exact arithmetic, over any number of leaves: a
multiple of a vector is as many times as long. So when Newton's direction is divided by its length and
multiplied by a step size, the step is as long as the step size. A direction of length zero is only
multiplied (`compute_homogeneous`).

Dividing by a length does not turn a direction round. So the change of the objective that a step promises
to first order is never above zero: for a residual it is a multiple of the square of the length of the
image, and for a gradient it is a multiple of the quadratic form of the operator
(`predictedChange_newton`).
-/

namespace LeastSquares

open Matrix Exact LeastSquares.Tree

/-! ### Homogeneous norms -/

section Homogeneity

variable {n : Nat}

/-- The norm of a multiple is the magnitude of the factor times the norm. -/
def Norm.IsHomogeneous (norm : Norm Exact) : Prop :=
  ∀ {n : Nat} (c : ℝ) (x : Fin n → ℝ),
    norm.ofLeaves (vector (c • x)) = real |c| * norm.ofLeaves (vector x)

/-- A norm of this library measures a vector by a number, zero or above, and a multiple by as many times
this number. -/
theorem Norm.IsBuiltIn.exists_length {norm : Norm Exact} (h : norm.IsBuiltIn) (x : Fin n → ℝ) (c : ℝ) :
    ∃ length, 0 ≤ length ∧ norm.ofLeaves (vector x) = real length ∧
      norm.ofLeaves (vector (c • x)) = real (|c| * length) := by
  obtain ⟨length, hlength, hmeasure⟩ := h.exists_vectorNorm n
  exact ⟨length x, hlength.nonneg x, hmeasure x, by rw [hmeasure, hlength.smul]⟩

theorem Norm.IsBuiltIn.isHomogeneous {norm : Norm Exact} (h : norm.IsBuiltIn) :
    norm.IsHomogeneous := by
  intro n c x
  obtain ⟨length, -, hlength, hmultiple⟩ := h.exists_length x c
  rw [hlength, hmultiple, real_mul]

/-- The sum of magnitudes is homogeneous, too. -/
theorem isHomogeneous_one : (Norm.one : Norm Exact).IsHomogeneous := by
  intro n c x
  have hsum (y : Fin n → ℝ) : Norm.one.ofLeaves (vector y) = real (∑ i, |y i|) := by
    rw [Norm.one, Norm.ofLeaves, sumAbs, Scalar.sumFromZero, map_vector abs_real, zero_eq,
      foldl_add_vector, zero_add]
  rw [hsum, hsum, real_mul, Finset.mul_sum]
  simp [abs_mul]

end Homogeneity

/-! ### Steps of several sizes -/

section Steps

variable {κ Aux : Type} [Dense.Kernels Exact] {descent : NewtonDescent Exact} {s : Tree κ Exact}
  {x : Fin s.size → ℝ} {status : Status}

/-- A step goes back along the direction, by the step size over the divisor of the direction. -/
theorem compute_of_direction {options : DescentOptions κ Exact}
    (h : descent.direction options = .ok ⟨s.withReals x, status⟩) (l : ℝ) :
    descent.compute (real l) options =
      .ok ⟨s.withReals (-(l / NewtonDescent.divisor descent.norm (s.withReals x)) • x), status⟩ := by
  unfold NewtonDescent.compute
  rw [h, Outcome.ok_bind, normalize_eq_withReals, real_neg, scale_withReals, smul_smul, neg_mul,
    ← div_eq_mul_inv]
  rfl

omit [Dense.Kernels Exact] in
/-- A direction of positive length is divided by its length. -/
theorem divisor_of_pos {norm : Norm Exact} {newton : Tree κ Exact} {length : ℝ}
    (h : norm.apply newton = real length) (hpos : 0 < length) :
    NewtonDescent.divisor (some norm) newton = length := by
  simp [NewtonDescent.divisor, h, hpos]

omit [Dense.Kernels Exact] in
/-- A direction without a positive length is not divided. -/
theorem divisor_of_not_pos {norm : Norm Exact} {newton : Tree κ Exact}
    (h : ∀ length, norm.apply newton = real length → ¬0 < length) :
    NewtonDescent.divisor (some norm) newton = 1 := by
  cases hlength : norm.apply newton with
  | real length => simp [NewtonDescent.divisor, hlength, h length hlength]
  | posInf | negInf | nan => simp [NewtonDescent.divisor, hlength]

/-- **The length of Newton's step.** The norms of this library are homogeneous and measure real leaves by
a number, zero or above. Where a descent finds a real direction, it makes a step of every size. Under any
homogeneous norm, a direction of positive length is multiplied by the negative of the step size over its
length: the step is as long as the step size, and a linear operator takes it to the same multiple of the
image of the direction. A direction of length zero is multiplied by the negative of the step size. Without
a norm, a linear operator that takes the direction to the vector takes the step to the vector times the
negative of the step size. -/
theorem compute_homogeneous :
    (∀ norm : Norm Exact, norm.IsBuiltIn → norm.IsHomogeneous ∧
      ∀ s n : Tree κ Exact, IsReal s n → ∃ length, 0 ≤ length ∧ norm.apply n = real length) ∧
    ∀ (descent : NewtonDescent Exact) (options : DescentOptions κ Exact) (s n : Tree κ Exact) (l : ℝ),
      IsReal s n → descent.direction options = .ok ⟨n, .successful⟩ →
      ∃ d, descent.compute (real l) options = .ok ⟨d, .successful⟩ ∧
        (∀ norm, descent.norm = some norm → norm.IsHomogeneous →
          (∀ length : ℝ, norm.apply n = real length → 0 < length →
            d = n.scale (real (-(l / length))) ∧ norm.apply d = real |l| ∧
              ∀ (operator : LinearOperator κ Exact) (image : Tree κ Exact), operator.IsLinear →
                IsReal operator.domain n → operator.apply n = .ok image →
                operator.apply d = .ok (image.scale (real (-(l / length))))) ∧
          (norm.apply n = real 0 → d = n.scale (real (-l)))) ∧
        (descent.norm = none →
          ∀ (operator : LinearOperator κ Exact) (vector image : Tree κ Exact), operator.IsLinear →
            IsReal operator.domain n → options.vector = some vector →
            operator.apply n = .ok image → image.leaves = vector.leaves →
            ∃ image', operator.apply d = .ok image' ∧
              image'.leaves = (vector.scale (real (-l))).leaves) := by
  refine ⟨fun norm hnorm => ⟨hnorm.isHomogeneous, ?_⟩, ?_⟩
  · rintro s _ ⟨x, rfl⟩
    obtain ⟨length, hnonneg, hlength, -⟩ := hnorm.exists_length x 1
    exact ⟨length, hnonneg, by rwa [Norm.apply, leaves_withReals]⟩
  rintro descent options s _ l ⟨x, rfl⟩ hdirection
  refine ⟨_, compute_of_direction hdirection l, ?_, ?_⟩
  · intro norm hnorm hhomogeneous
    rw [hnorm]
    refine ⟨fun length hlength hpos => ?_, fun hzero => ?_⟩
    · rw [divisor_of_pos hlength hpos, ← scale_withReals]
      refine ⟨rfl, ?_, fun operator image hlinear hreal => hlinear.scale _ hreal⟩
      rw [Norm.apply, leaves_withReals] at hlength
      rw [scale_withReals, Norm.apply, leaves_withReals, hhomogeneous, hlength, real_mul, abs_neg,
        abs_div, abs_of_pos hpos, div_mul_cancel₀ _ hpos.ne']
    · have hnone (length : ℝ) (hlength : norm.apply (s.withReals x) = real length) : ¬0 < length := by
        cases hzero.symm.trans hlength
        exact lt_irrefl 0
      rw [divisor_of_not_pos hnone, div_one, scale_withReals]
  · intro hnone operator vector image hlinear hreal _ happly hexact
    have hdivisor : NewtonDescent.divisor none (s.withReals x) = 1 := rfl
    rw [hnone, hdivisor, div_one, ← scale_withReals]
    refine ⟨_, hlinear.scale _ hreal happly, ?_⟩
    rw [leaves_scale, leaves_scale, hexact]

end Steps

/-! ### The unknown three and four times -/

section ThreeFour

open LinearOperator

/-- The operator of a column of two numbers. -/
noncomputable def ofTwoRows (x y : ℝ) : LinearOperator Unit Exact :=
  let a := toDense (Dense.twoRows x y)
  let codomain : Tree Unit Exact := .array .growable [0, 0]
  ⟨.scalar 0, codomain, {}, applyMatrix a codomain, .ok a⟩

theorem isLinear_ofTwoRows (x y : ℝ) : (ofTwoRows x y).IsLinear := by
  have hmade : ofMatrix? (toDense (Dense.twoRows x y)) (.scalar 0) (ofTwoRows x y).codomain {} =
      .ok (ofTwoRows x y) := rfl
  exact isLinear_ofMatrix hmade (Dense.allFinite_toDense _)

theorem apply_ofTwoRows (x y v : ℝ) : (ofTwoRows x y).apply (.scalar (real v)) =
    .ok (.array .growable [real (x * v), real (y * v)]) := by
  have hproduct : (toDense (Dense.twoRows x y)).mulVec [real v] = [real (x * v), real (y * v)] := by
    rw [← vector_one fun _ => v, mulVec_toDense, Dense.mulVec_twoRows]
    simp [vector]
  show (ofTwoRows x y).codomain.rebuild ((toDense (Dense.twoRows x y)).mulVec [real v]) = _
  rw [hproduct]
  rfl

/-- A vector of two numbers against a column. -/
noncomputable def against (operator : LinearOperator Unit Exact) (c : Fin 2 → ℝ) :
    DescentOptions Unit Exact :=
  { vector := some (.array .growable (vector c)), operator := some operator }

theorem direction_threeFour (norm : Option (Norm Exact)) {a b z : ℝ} (h : (3 * a + 4 * b) / 25 = z) :
    (⟨norm, .qr⟩ : NewtonDescent Exact).direction (against (ofTwoRows 3 4) ![a, b]) =
      .ok ⟨.scalar (real z), .successful⟩ := by
  have hmatrix : (ofTwoRows 3 4).matrix = .ok (toDense (Dense.twoRows 3 4)) := rfl
  have hsolve : (ofTwoRows 3 4).solve (.array .growable (vector ![a, b])) .qr = _ :=
    solve_of_answer hmatrix (Dense.solve_qr_column ![a, b]) rfl
  rw [← h]
  exact hsolve

/-- Six and eight are the image of two. Under the sum of magnitudes a step of size five is as long as
five, and without a norm its image is five times the negative of six and eight. The direction of zero is
not made any longer. -/
theorem compute_homogeneous_threeFour :
    (∃ d, (⟨some .one, .qr⟩ : NewtonDescent Exact).compute (real 5) (against (ofTwoRows 3 4) ![6, 8]) =
        .ok ⟨d, .successful⟩ ∧ Norm.one.apply d = real 5) ∧
      (∃ d, (⟨none, .qr⟩ : NewtonDescent Exact).compute (real 5) (against (ofTwoRows 3 4) ![6, 8]) =
        .ok ⟨d, .successful⟩ ∧
        ∃ image, (ofTwoRows 3 4).apply d = .ok image ∧ image.leaves = [real (-5 * 6), real (-5 * 8)]) ∧
      ∃ d, (⟨some .max, .qr⟩ : NewtonDescent Exact).compute (real 5)
        (against (ofTwoRows 3 4) ![0, 0]) = .ok ⟨d, .successful⟩ ∧ d.leaves = [real 0] := by
  obtain ⟨hbuiltIn, hsteps⟩ := compute_homogeneous (κ := Unit)
  have hreal (x : ℝ) : IsReal (.scalar 0) (.scalar (real x) : Tree Unit Exact) := ⟨fun _ => x, rfl⟩
  have htwo : ((3 * 6 + 4 * 8) / 25 : ℝ) = 2 := by norm_num
  refine ⟨?_, ?_, ?_⟩
  · obtain ⟨d, hcompute, hlength, -⟩ :=
      hsteps _ _ _ _ 5 (hreal 2) (direction_threeFour (some .one) htwo)
    have hone : Norm.one.apply (Tree.scalar (real 2) : Tree Unit Exact) = real 2 := by
      simp [Norm.apply, Norm.one, Norm.ofLeaves, sumAbs, Scalar.sumFromZero, leaves]
    obtain ⟨-, hstep, -⟩ := (hlength _ rfl isHomogeneous_one).1 2 hone two_pos
    exact ⟨d, hcompute, by rwa [abs_of_pos (by norm_num)] at hstep⟩
  · obtain ⟨d, hcompute, -, himage⟩ := hsteps _ _ _ _ 5 (hreal 2) (direction_threeFour none htwo)
    have hexact : [real (3 * 2), real (4 * 2)] = vector ![6, 8] := by
      norm_num [vector]
    obtain ⟨image, happly, hleaves⟩ :=
      himage rfl _ _ _ (isLinear_ofTwoRows 3 4) (hreal 2) rfl (apply_ofTwoRows 3 4 2) hexact
    refine ⟨d, hcompute, image, happly, hleaves.trans ?_⟩
    rw [leaves_scale]
    simp [leaves, vector]
  · have hnothing : ((3 * 0 + 4 * 0) / 25 : ℝ) = 0 := by norm_num
    obtain ⟨d, hcompute, hlength, -⟩ :=
      hsteps _ _ _ _ 5 (hreal 0) (direction_threeFour (some .max) hnothing)
    have hzero : Norm.max.apply (Tree.scalar (real 0) : Tree Unit Exact) = real 0 := by
      simp [Norm.apply, Norm.ofLeaves, maxMagnitude, leaves, maxMagnitudeStep_real]
    obtain rfl := (hlength _ rfl (hbuiltIn .max trivial).1).2 hzero
    exact ⟨_, hcompute, by simp [leaves]⟩

end ThreeFour

/-! ### The predicted change -/

section Predictions

variable {κ Aux : Type} {s : Tree κ Exact} {options : LineSearchOptions κ Exact Aux}
  {operator : LinearOperator κ Exact} {x : Fin s.size → ℝ} {t : ℝ}

/-- Back along a solution of the normal equations, the promised change is a multiple of the square of the
length of its image. -/
theorem predictedChange_of_normal {m : Nat} {J : Matrix (Fin m) (Fin s.size) ℝ} {r : Fin m → ℝ}
    (hmode : options.gaussNewton = true) (hoperator : options.operator = some operator)
    (h : ActsAs operator.apply s J) (hvector : options.vector.leaves = vector r)
    (hnormal : Jᵀ *ᵥ (J *ᵥ x - r) = 0) (ht : 0 ≤ t) :
    ∃ p, options.predictedChange (s.withReals (-t • x)) = .ok (some (real p)) ∧
      p = -2 * t * (J *ᵥ x ⬝ᵥ J *ᵥ x) ∧ p ≤ 0 := by
  refine ⟨_, predictedChange_of_actsAs hmode hoperator hvector h _, ?_, predicted_nonpos hnormal ht⟩
  rw [mulVec_smul, dotProduct_smul, dotProduct_of_normal hnormal, smul_eq_mul]
  ring

/-- Back along a direction that the operator takes to the gradient, the promised change is a multiple of
the quadratic form of the operator. -/
theorem predictedChange_of_posSemidef {H : Matrix (Fin s.size) (Fin s.size) ℝ} {image : Tree κ Exact}
    (hmode : options.gaussNewton = false) (h : ActsAs operator.apply s H) (hH : H.PosSemidef)
    (happly : operator.apply (s.withReals x) = .ok image)
    (himage : image.leaves = options.vector.leaves) (ht : 0 ≤ t) :
    ∃ p, options.predictedChange (s.withReals (-t • x)) = .ok (some (real p)) ∧
      p = -t * (x ⬝ᵥ H *ᵥ x) ∧ p ≤ 0 := by
  obtain ⟨image', happly', hleaves⟩ := h x
  cases happly.symm.trans happly'
  have hform : (H *ᵥ x) ⬝ᵥ (-t • x) = -t * (x ⬝ᵥ H *ᵥ x) := by
    rw [dotProduct_smul, smul_eq_mul, dotProduct_comm]
  have hnonneg : 0 ≤ x ⬝ᵥ H *ᵥ x := hH.dotProduct_mulVec_nonneg x
  refine ⟨_, predictedChange_of_gradient hmode (himage.symm.trans hleaves) _, hform, ?_⟩
  rw [hform]
  exact mul_nonpos_of_nonpos_of_nonneg (neg_nonpos.mpr ht) hnonneg

/-- **The change that a Newton step promises.** Where a descent finds a real direction, a step of size
zero or above goes back along it, by the step size over the number `c` that the direction is divided by.
This is its length under the norm of the descent where that is above zero, and one where it is not, or
where there is no norm. For a residual and its Jacobian `J`, and a direction `x` that solves the normal
equations, the step promises `-2 l |J x| ^ 2 / c`. For a gradient and a positive semidefinite operator `H`
that takes the direction to the gradient, it promises `-(l / c)` times the product of `x` and `H x`.
Neither is above zero. -/
theorem predictedChange_newton [Dense.Kernels Exact] (descent : NewtonDescent Exact)
    (options : LineSearchOptions κ Exact Aux) (s : Tree κ Exact) (x : Fin s.size → ℝ) (status : Status)
    (h : descent.direction options.descentOptions = .ok ⟨s.withReals x, status⟩) (l : ℝ)
    (hl : 0 ≤ l) :
    ∃ (c : ℝ) (d : Tree κ Exact), 0 < c ∧ (descent.norm = none → c = 1) ∧
      (∀ norm, descent.norm = some norm →
        (∀ length, norm.apply (s.withReals x) = real length → 0 < length → c = length) ∧
        ((∀ length, norm.apply (s.withReals x) = real length → ¬0 < length) → c = 1)) ∧
      descent.compute (real l) options.descentOptions = .ok ⟨d, status⟩ ∧
      d = (s.withReals x).scale (real (-(l / c))) ∧
      (∀ (operator : LinearOperator κ Exact) (m : Nat) (J : Matrix (Fin m) (Fin s.size) ℝ)
        (r : Fin m → ℝ), options.gaussNewton = true → options.operator = some operator →
        ActsAs operator.apply s J → options.vector.leaves = vector r →
        Jᵀ *ᵥ (J *ᵥ x - r) = 0 →
        ∃ p, options.predictedChange d = .ok (some (real p)) ∧
          p = -2 * l * (J *ᵥ x ⬝ᵥ J *ᵥ x) / c ∧ p ≤ 0) ∧
      ∀ (operator : LinearOperator κ Exact) (H : Matrix (Fin s.size) (Fin s.size) ℝ)
        (image : Tree κ Exact), options.gaussNewton = false → options.operator = some operator →
        ActsAs operator.apply s H → H.PosSemidef → operator.apply (s.withReals x) = .ok image →
        image.leaves = options.vector.leaves →
        ∃ p, options.predictedChange d = .ok (some (real p)) ∧
          p = -(l / c) * (x ⬝ᵥ H *ᵥ x) ∧ p ≤ 0 := by
  have hpos := NewtonDescent.divisor_pos descent.norm (s.withReals x)
  have ht := div_nonneg hl hpos.le
  refine ⟨_, _, hpos, ?_, ?_, compute_of_direction h l, (scale_withReals ..).symm, ?_, ?_⟩
  · intro hnone
    rw [hnone]
    rfl
  · intro norm hnorm
    rw [hnorm]
    exact ⟨fun _ => divisor_of_pos, divisor_of_not_pos⟩
  · intro operator m J r hmode hoperator hacts hvector hnormal
    obtain ⟨p, hchange, hp, hnonpos⟩ :=
      predictedChange_of_normal hmode hoperator hacts hvector hnormal ht
    exact ⟨p, hchange, hp.trans (by ring), hnonpos⟩
  · intro operator H image hmode _ hacts hH happly himage
    exact predictedChange_of_posSemidef hmode hacts hH happly himage ht

end Predictions

/-! ### The two modes of prediction -/

section TwoModes

open LinearOperator

theorem actsAs_ofTwoRows (x y : ℝ) :
    ActsAs (ofTwoRows x y).apply (.scalar 0) (Dense.twoRows x y) := by
  intro v
  change Fin 1 → ℝ at v
  refine ⟨_, apply_ofTwoRows x y (v 0), ?_⟩
  exact (congrArg vector (Dense.mulVec_twoRows x y v)).symm

theorem mulVec_two : Dense.twoRows 3 4 *ᵥ (fun _ => 2) = ![6, 8] := by
  rw [Dense.mulVec_twoRows]
  norm_num

/-- Two solves the normal equations for fourteen and two. -/
theorem normal_two :
    (Dense.twoRows 3 4)ᵀ *ᵥ (Dense.twoRows 3 4 *ᵥ (fun _ => 2) - ![14, 2]) = 0 := by
  rw [mulVec_two]
  ext i
  fin_cases i
  norm_num [Dense.twoRows, mulVec, dotProduct, Fin.sum_univ_two]

/-- Two numbers. -/
noncomputable def pair : Tree Unit Exact := .array .growable [0, 0]

/-- A tree times a real number. -/
noncomputable def multiplying (c : ℝ) : LinearOperator Unit Exact :=
  ofFunction (fun t => .ok (t.scale (real c))) pair pair {}

theorem actsAs_multiplying (c : ℝ) : ActsAs (multiplying c).apply pair (diagonal fun _ => c) := by
  intro v
  refine ⟨_, rfl, ?_⟩
  rw [scale_withReals, leaves_withReals, diagonal_const_mulVec]

/-- Two numbers as a residual with its Jacobian. -/
noncomputable def atResidual (jacobian : LinearOperator Unit Exact) (c : Fin 2 → ℝ) :
    LineSearchOptions Unit Exact Unit where
  initStepSize := 1
  vector := .array .growable (vector c)
  operator := some jacobian
  objective := real (c ⬝ᵥ c)
  aux := ()
  gaussNewton := true

/-- Two numbers as a gradient whose Hessian multiplies by a number. -/
noncomputable def atGradient (c : ℝ) (g : Fin 2 → ℝ) : LineSearchOptions Unit Exact Unit where
  initStepSize := 1
  vector := pair.withReals g
  operator := some (multiplying c)
  inverse := some (multiplying c⁻¹)
  objective := 0
  aux := ()

theorem direction_atResidual {a b z : ℝ} (h : (3 * a + 4 * b) / 25 = z) :
    (⟨some .max, .qr⟩ : NewtonDescent Exact).direction
        (atResidual (ofTwoRows 3 4) ![a, b]).descentOptions =
      .ok ⟨(Tree.scalar 0).withReals fun _ : Fin 1 => z, .successful⟩ :=
  direction_threeFour (some .max) h

theorem scale_pair (c x y : ℝ) : (pair.withReals (![x, y] : Fin 2 → ℝ)).scale (real c) =
    pair.withReals (![c * x, c * y] : Fin 2 → ℝ) := rfl

theorem direction_atGradient (c x y : ℝ) :
    (⟨some .max, .standard⟩ : NewtonDescent Exact).direction (atGradient c ![x, y]).descentOptions =
      .ok ⟨pair.withReals (![c⁻¹ * x, c⁻¹ * y] : Fin 2 → ℝ), .successful⟩ := by
  rw [← scale_pair]
  rfl

/-- The direction of fourteen and two is two, which goes to six and eight, and a step of size one under
the largest magnitude promises minus one hundred. Six and eight are twice three and four, and a step of
size four promises minus fifty. -/
theorem predictedChange_newton_threeFour :
    (∃ d, (⟨some .max, .qr⟩ : NewtonDescent Exact).compute (real 1)
        (atResidual (ofTwoRows 3 4) ![14, 2]).descentOptions = .ok ⟨d, .successful⟩ ∧
        (atResidual (ofTwoRows 3 4) ![14, 2]).predictedChange d = .ok (some (real (-100)))) ∧
      ∃ d, (⟨some .max, .standard⟩ : NewtonDescent Exact).compute (real 4)
        (atGradient 2 ![6, 8]).descentOptions = .ok ⟨d, .successful⟩ ∧
        (atGradient 2 ![6, 8]).predictedChange d = .ok (some (real (-50))) := by
  constructor
  · have hquotient : ((3 * 14 + 4 * 2) / 25 : ℝ) = 2 := by norm_num
    obtain ⟨c, d, -, -, hc, hcompute, -, hresidual, -⟩ :=
      predictedChange_newton _ _ _ _ _ (direction_atResidual hquotient) 1 zero_le_one
    have hlength : c = 2 := by
      refine (hc .max rfl).1 _ ?_ two_pos
      show ([real 2] : List Exact).foldl maxMagnitudeStep (real 0) = real 2
      simp [maxMagnitudeStep_real]
    obtain ⟨p, hchange, hp, -⟩ :=
      hresidual _ 2 _ ![14, 2] rfl rfl (actsAs_ofTwoRows 3 4) rfl normal_two
    have hsquares : (![6, 8] : Fin 2 → ℝ) ⬝ᵥ ![6, 8] = 100 := by
      norm_num [dotProduct, Fin.sum_univ_two]
    have himages : p = -2 * 1 * ((![6, 8] : Fin 2 → ℝ) ⬝ᵥ ![6, 8]) / c := mulVec_two ▸ hp
    rw [hsquares, hlength] at himages
    norm_num at himages
    exact ⟨d, hcompute, himages ▸ hchange⟩
  · obtain ⟨c, d, -, -, hc, hcompute, -, -, hgradient⟩ :=
      predictedChange_newton _ _ _ _ _ (direction_atGradient 2 6 8) 4 zero_le_four
    have hlength : c = 2⁻¹ * 8 := by
      refine (hc .max rfl).1 _ ?_ (by norm_num)
      show ([real (2⁻¹ * 6), real (2⁻¹ * 8)] : List Exact).foldl maxMagnitudeStep (real 0) = _
      norm_num [maxMagnitudeStep_real]
    have hpos : (diagonal fun _ : Fin 2 => (2 : ℝ)).PosSemidef := .diagonal fun _ => zero_le_two
    have himage : ((pair.withReals (![2⁻¹ * 6, 2⁻¹ * 8] : Fin 2 → ℝ)).scale (real 2)).leaves =
        (atGradient 2 ![6, 8]).vector.leaves := by
      rw [scale_pair, mul_inv_cancel_left₀ two_ne_zero, mul_inv_cancel_left₀ two_ne_zero]
      rfl
    obtain ⟨p, hchange, hp, -⟩ :=
      hgradient _ (diagonal fun _ => 2) _ rfl rfl (actsAs_multiplying 2) hpos rfl himage
    have hform : (![2⁻¹ * 6, 2⁻¹ * 8] : Fin 2 → ℝ) ⬝ᵥ
        (diagonal fun _ => 2) *ᵥ ![2⁻¹ * 6, 2⁻¹ * 8] = 50 := by
      norm_num [diagonal_const_mulVec, dotProduct, Fin.sum_univ_two]
    have hforms : p = -(4 / c) * ((![2⁻¹ * 6, 2⁻¹ * 8] : Fin 2 → ℝ) ⬝ᵥ
        (diagonal fun _ => 2) *ᵥ ![2⁻¹ * 6, 2⁻¹ * 8]) := hp
    rw [hform, hlength] at hforms
    norm_num at hforms
    exact ⟨d, hcompute, hforms ▸ hchange⟩

end TwoModes

end LeastSquares
