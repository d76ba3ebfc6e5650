import LeastSquares.Iteration.GaussNewton
import LeastSquares.Proofs.Exact.Vector

/-!
# Jacobians of real numbers

A map of trees whose derivative is a matrix of real numbers becomes that matrix when it is applied to
the unit trees one after another. So a linear solve against the derivative is a solve of the matrix,
and Newton's descent, when it succeeds, goes along the negative of the solution.

What the solver of the matrix answers is left open here: it is what the theorems about a run ask of
it.
-/

namespace LeastSquares

open Matrix Exact LeastSquares.Tree

variable {κ Aux : Type} {m : Nat}

/-- A matrix of real numbers as the corner of an infinite array of zeros. -/
def extend {n : Nat} (A : Matrix (Fin m) (Fin n) ℝ) (i j : Nat) : ℝ :=
  if h : i < m ∧ j < n then A ⟨i, h.1⟩ ⟨j, h.2⟩ else 0

/-- The dense matrix with the entries of a matrix of real numbers. -/
def toDense {n : Nat} (A : Matrix (Fin m) (Fin n) ℝ) : DenseMatrix Exact :=
  .ofFn m n fun i j => if h : i < m ∧ j < n then real (A ⟨i, h.1⟩ ⟨j, h.2⟩) else real 0

section Dense

@[simp] theorem nrows_toDense {n : Nat} (A : Matrix (Fin m) (Fin n) ℝ) : (toDense A).nrows = m := rfl

@[simp] theorem ncols_toDense {n : Nat} (A : Matrix (Fin m) (Fin n) ℝ) : (toDense A).ncols = n := rfl

theorem column_toDense {n : Nat} (A : Matrix (Fin m) (Fin n) ℝ) (j : Fin n) :
    (toDense A).column j = vector (A *ᵥ Pi.single j 1) := by
  apply List.ext_getElem
  · rw [DenseMatrix.column_length, vector_length]
    rfl
  · intro i h₁ h₂
    have hi : i < m := by simpa using h₂
    simp only [DenseMatrix.column, toDense, List.getElem_map, List.getElem_range, vector_getElem,
      mulVec_single_one, col_apply]
    rw [DenseMatrix.entry_ofFn _ _ _ hi j.isLt, dif_pos ⟨hi, j.isLt⟩]

/-- A matrix is told by its columns. -/
theorem ofColumns_column {α : Type} [Zero α] (a : DenseMatrix α) :
    DenseMatrix.ofColumns a.nrows a.ncols ((List.range a.ncols).map a.column) = a := by
  refine DenseMatrix.ext_entry rfl rfl fun i j hi hj => ?_
  change i < a.nrows at hi
  change j < a.ncols at hj
  rw [DenseMatrix.entry_ofColumns _ hi hj]
  simp [DenseMatrix.column, hi, hj]

end Dense

/-- On the trees of a skeleton with real leaves, a map answers the product with a matrix. -/
def ActsAs (apply : Tree κ Exact → Checked (Tree κ Exact)) (s : Tree κ Exact)
    (A : Matrix (Fin m) (Fin s.size) ℝ) : Prop :=
  ∀ v, ∃ image, apply (s.withReals v) = .ok image ∧ image.leaves = vector (A *ᵥ v)

/-- At a vector of real numbers a residual answers real numbers, and its derivative is a matrix. -/
structure Residual.LinearizesAt (residual : Residual κ Exact Aux) (s : Tree κ Exact)
    (x : Fin s.size → ℝ) (r : Fin m → ℝ) (J : Matrix (Fin m) (Fin s.size) ℝ) : Prop where
  value : ∃ t aux, residual.value (s.withReals x) = .ok (t, aux) ∧ t.leaves = vector r
  tangent : ActsAs (residual.tangent (s.withReals x)) s J

/-- The linearization at a vector of real numbers. -/
theorem Residual.LinearizesAt.linearize {residual : Residual κ Exact Aux} {s : Tree κ Exact}
    {x : Fin s.size → ℝ} {r : Fin m → ℝ} {J : Matrix (Fin m) (Fin s.size) ℝ}
    (h : residual.LinearizesAt s x r J) :
    ∃ linear, residual.linearize (s.withReals x) = .ok linear ∧ linear.value.leaves = vector r ∧
      ActsAs linear.tangent s J := by
  obtain ⟨t, aux, hvalue, hleaves⟩ := h.value
  refine ⟨⟨t, residual.tangent (s.withReals x), aux⟩, ?_, hleaves, h.tangent⟩
  simp [Residual.linearize, hvalue]

/-- What a dense solve of the matrix answers is read out into the domain. -/
theorem LinearOperator.solve_of_answer {α : Type} [Scalar α] [Dense.Kernels α]
    {operator : LinearOperator κ α} {a : DenseMatrix α} {vector : Tree κ α} {strategy : Dense.Strategy}
    {x : List α} (hmatrix : operator.matrix = .ok a)
    (h : Dense.solve strategy a vector.leaves operator.tags = .ok x)
    (hlength : x.length = operator.domain.size) :
    operator.solve vector strategy = .ok ⟨operator.domain.withLeaves x, .successful⟩ := by
  simp only [solve, hmatrix, h, rebuild_eq_ok operator.domain hlength, Outcome.liftM_eq_toOutcome,
    Checked.toOutcome_ok, Outcome.ok_bind, Outcome.pure_eq_ok]

theorem ofCause?_ne_successful (cause : Dense.Cause) :
    Status.ofCause? cause ≠ some .successful := by
  cases cause <;> decide

/-- A solve that succeeds has solved its matrix. -/
theorem LinearOperator.answer_of_solve {α : Type} [Scalar α] [Dense.Kernels α]
    {operator : LinearOperator κ α} {a : DenseMatrix α} {vector : Tree κ α} {strategy : Dense.Strategy}
    {solution : LinearOperator.Solution κ α} (hmatrix : operator.matrix = .ok a)
    (hsolve : operator.solve vector strategy = .ok solution) (hstatus : solution.status = .successful) :
    ∃ xs, Dense.solve strategy a vector.leaves operator.tags = .ok xs ∧
      operator.domain.rebuild xs = .ok solution.value := by
  simp only [solve, hmatrix, Outcome.liftM_eq_toOutcome, Checked.toOutcome_ok,
    Outcome.ok_bind] at hsolve
  match hxs : Dense.solve strategy a vector.leaves operator.tags with
  | .ok xs =>
      rw [hxs] at hsolve
      obtain ⟨value, hvalue, hsolution⟩ := Outcome.bind_eq_ok.mp hsolve
      cases hsolution
      exact ⟨xs, rfl, Checked.toOutcome_eq_ok.mp hvalue⟩
  | .error (.broken fault) =>
      rw [hxs] at hsolve
      cases hsolve
  | .error (.reported report) =>
      rw [hxs] at hsolve
      match hcause : Status.ofCause? report.cause with
      | none =>
          simp only [hcause] at hsolve
          cases hsolve
      | some status =>
          simp only [hcause] at hsolve
          cases hsolve
          exact absurd (hcause.trans (congrArg some hstatus)) (ofCause?_ne_successful _)

section Solving

variable {apply : Tree κ Exact → Checked (Tree κ Exact)} {s domain codomain : Tree κ Exact}
  {A : Matrix (Fin m) (Fin s.size) ℝ} {x : Fin s.size → ℝ}

theorem columnOf_of_actsAs (h : ActsAs apply s A) (hdomain : domain.skeleton = s.skeleton)
    (j : Fin s.size) : columnOf apply domain m j = .ok ((toDense A).column j) := by
  obtain ⟨image, happly, hleaves⟩ := h (Pi.single j 1)
  unfold columnOf
  rw [unit_of_skeleton hdomain, happly, column_toDense, ← hleaves]
  simp [hleaves]

/-- **The matrix of a derivative.** Applied to the unit trees, a map that acts as a matrix gives this
matrix. -/
theorem materialize_of_actsAs (h : ActsAs apply s A) (hdomain : domain.skeleton = s.skeleton)
    (hcodomain : codomain.size = m) : materialize apply domain codomain = .ok (toDense A) := by
  unfold materialize
  rw [hcodomain, size_eq_of_skeleton hdomain, Outcome.mapM_eq_ok (g := (toDense A).column)
    fun j hj => columnOf_of_actsAs h hdomain ⟨j, List.mem_range.mp hj⟩]
  exact congrArg Except.ok (ofColumns_column (toDense A))

variable [Dense.Kernels Exact] {tags : Tags} {strategy : Dense.Strategy} {v : Tree κ Exact}
  {c : Fin m → ℝ}

/-- A solve whose matrix is solved by real numbers answers them. -/
theorem solve_of_dense (h : ActsAs apply s A) (hcodomain : codomain.size = m)
    (hv : v.leaves = vector c) {n : Fin s.size → ℝ}
    (hsolve : Dense.solve strategy (toDense A) (vector c) tags = .ok (vector n)) :
    (LinearOperator.ofFunction apply (s.withReals x) codomain tags).solve v strategy =
      .ok ⟨s.withReals n, .successful⟩ := by
  have hmatrix := materialize_of_actsAs h (skeleton_withReals s x) hcodomain
  have hvalue : (s.withReals x).withLeaves (vector n) = s.withReals n := withLeaves_withReals s x _
  rw [← hv] at hsolve
  rw [← hvalue]
  exact LinearOperator.solve_of_answer hmatrix hsolve (by simp [LinearOperator.ofFunction])

/-- A solve against a derivative that succeeds has solved its matrix. -/
theorem dense_of_solve (h : ActsAs apply s A) (hcodomain : codomain.size = m)
    (hv : v.leaves = vector c) {solution : LinearOperator.Solution κ Exact}
    (hsolve : (LinearOperator.ofFunction apply (s.withReals x) codomain tags).solve v strategy =
      .ok solution) (hstatus : solution.status = .successful) :
    ∃ xs, Dense.solve strategy (toDense A) (vector c) tags = .ok xs ∧
      (s.withReals x).rebuild xs = .ok solution.value := by
  have hmatrix := materialize_of_actsAs h (skeleton_withReals s x) hcodomain
  rw [← hv]
  exact LinearOperator.answer_of_solve hmatrix hsolve hstatus

end Solving

section Descending

variable {linear : Linearization κ Exact Aux} {s : Tree κ Exact} {x : Fin s.size → ℝ}
  {r : Fin m → ℝ} {J : Matrix (Fin m) (Fin s.size) ℝ}

theorem size_of_leaves (h : linear.value.leaves = vector r) : linear.value.size = m := by
  rw [← leaves_length, h, vector_length]

/-- Newton's descent goes back along the solution, brought to unit length if that is asked for. -/
theorem compute_of_solution [Dense.Kernels Exact] {tags : Tags} {strategy : Dense.Strategy}
    (hvalue : linear.value.leaves = vector r) (htangent : ActsAs linear.tangent s J)
    {z : Fin s.size → ℝ}
    (hsolve : Dense.solve strategy (toDense J) (vector r) tags = .ok (vector z))
    (norm : Option (Norm Exact)) (stepSize init : Exact) :
    (⟨norm, strategy⟩ : NewtonDescent Exact).compute stepSize
        (GaussNewton.searchOptions linear tags (s.withReals x) init).descentOptions =
      .ok ⟨(NewtonDescent.normalize norm (s.withReals z)).scale (-stepSize), .successful⟩ := by
  have hdirection := solve_of_dense (x := x) htangent (size_of_leaves hvalue) hvalue hsolve
  unfold NewtonDescent.compute NewtonDescent.direction
  simp only [LineSearchOptions.descentOptions, GaussNewton.searchOptions, hdirection,
    Outcome.ok_bind, Outcome.pure_eq_ok]

theorem compute_of_dense [Dense.Kernels Exact] {tags : Tags} {strategy : Dense.Strategy}
    (hvalue : linear.value.leaves = vector r) (htangent : ActsAs linear.tangent s J)
    {z : Fin s.size → ℝ}
    (hsolve : Dense.solve strategy (toDense J) (vector r) tags = .ok (vector z)) (l : ℝ)
    (init : Exact) :
    (⟨none, strategy⟩ : NewtonDescent Exact).compute (real l)
        (GaussNewton.searchOptions linear tags (s.withReals x) init).descentOptions =
      .ok ⟨s.withReals (-l • z), .successful⟩ := by
  have hcompute := compute_of_solution (x := x) hvalue htangent hsolve none (real l) init
  rwa [NewtonDescent.normalize, real_neg, scale_withReals] at hcompute

/-- The predicted change of a real step, where the vector is a residual and its Jacobian a matrix. -/
theorem predictedChange_of_actsAs {options : LineSearchOptions κ Exact Aux}
    {operator : LinearOperator κ Exact} (hmode : options.gaussNewton = true)
    (hoperator : options.operator = some operator) (hvector : options.vector.leaves = vector r)
    (h : ActsAs operator.apply s J) (p : Fin s.size → ℝ) :
    options.predictedChange (s.withReals p) = .ok (some (real (2 * (r ⬝ᵥ J *ᵥ p)))) := by
  obtain ⟨image, happly, himage⟩ := h p
  simp [LineSearchOptions.predictedChange, hmode, hoperator, happly, dot, hvector, himage,
    dotLists_vector]

/-- The predicted change of a real step, where the vector is a gradient. -/
theorem predictedChange_of_gradient {options : LineSearchOptions κ Exact Aux}
    (hmode : options.gaussNewton = false) {g : Fin s.size → ℝ}
    (hvector : options.vector.leaves = vector g) (p : Fin s.size → ℝ) :
    options.predictedChange (s.withReals p) = .ok (some (real (g ⬝ᵥ p))) := by
  simp [LineSearchOptions.predictedChange, hmode, hvector, dotLists_vector]

/-- The predicted change of a real step of the Gauss–Newton method. -/
theorem predictedChange_withReals (hvalue : linear.value.leaves = vector r)
    (htangent : ActsAs linear.tangent s J) (tags : Tags) (y : Tree κ Exact) (init : Exact)
    (p : Fin s.size → ℝ) :
    (GaussNewton.searchOptions linear tags y init).predictedChange (s.withReals p) =
      .ok (some (real (2 * (r ⬝ᵥ J *ᵥ p)))) :=
  predictedChange_of_actsAs rfl rfl hvalue htangent p

end Descending

section Normalizing

/-- The number that a direction is divided by: its length, where that is a number above zero, and one
where it is not. -/
noncomputable def NewtonDescent.divisor (norm : Option (Norm Exact)) (newton : Tree κ Exact) : ℝ :=
  match norm with
  | none => 1
  | some norm =>
      match norm.apply newton with
      | real length => if 0 < length then length else 1
      | _ => 1

theorem NewtonDescent.divisor_pos (norm : Option (Norm Exact)) (newton : Tree κ Exact) :
    0 < NewtonDescent.divisor norm newton := by
  cases norm with
  | none => exact one_pos
  | some norm =>
      unfold NewtonDescent.divisor
      dsimp only
      cases norm.apply newton with
      | real length =>
          dsimp only
          split
          · assumption
          · exact one_pos
      | posInf | negInf | nan => exact one_pos

variable (norm : Option (Norm Exact)) (s : Tree κ Exact) (n : Fin s.size → ℝ)

/-- Normalizing divides a real direction by its divisor. -/
theorem normalize_eq_withReals :
    NewtonDescent.normalize norm (s.withReals n) =
      s.withReals ((NewtonDescent.divisor norm (s.withReals n))⁻¹ • n) := by
  cases norm with
  | none => simp [NewtonDescent.normalize, NewtonDescent.divisor]
  | some norm =>
      unfold NewtonDescent.normalize NewtonDescent.divisor
      dsimp only
      cases norm.apply (s.withReals n) with
      | real length =>
          by_cases hpos : 0 < length
          · simp [hpos, real_div 1 hpos.ne', scale_withReals]
          · simp [hpos]
      | posInf =>
          have hinfinite : Scalar.isFinite posInf = false := rfl
          simp [hinfinite]
      | negInf | nan => simp

/-- Normalizing divides a real direction by a positive number, or leaves it as it is. -/
theorem normalize_withReals :
    ∃ t : ℝ, 0 < t ∧ NewtonDescent.normalize norm (s.withReals n) = s.withReals (t • n) :=
  ⟨_, inv_pos.mpr (NewtonDescent.divisor_pos ..), normalize_eq_withReals norm s n⟩

end Normalizing

end LeastSquares
