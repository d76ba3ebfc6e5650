import Mathlib.LinearAlgebra.Matrix.Block
import Mathlib.LinearAlgebra.Matrix.Nondegenerate
import LeastSquares.Proofs.Dense.Verdict
import LeastSquares.Proofs.Exact.Shortest
import LeastSquares.Proofs.Exact.Substitution

/-!
# Exact factorizations

What it means for the factors of each kind to be exact factors of a matrix of real numbers. A solve by
exact triangular factors that answers real numbers answers the shortest least-squares solution: the
factors have no zero on their diagonals then, so they send only zero to zero.

Nothing is asked of the numbers that a factorization decides by, so nothing is said of when it refuses.
-/

namespace LeastSquares

open Matrix Exact LeastSquares.Dense

namespace Dense

/-- Exact triangular factors of a square matrix with its rows and columns reordered. -/
structure ExactLu {n : Nat} (f : LuFactors Exact) (A : Matrix (Fin n) (Fin n) ℝ) where
  lower : Matrix (Fin n) (Fin n) ℝ
  upper : Matrix (Fin n) (Fin n) ℝ
  rows : Equiv.Perm (Fin n)
  columns : Equiv.Perm (Fin n)
  lower_eq : f.lower = toDense lower
  upper_eq : f.upper = toDense upper
  rowOrder_eq : f.rowOrder = List.ofFn fun i => (rows i).val
  columnOrder_eq : f.columnOrder = List.ofFn fun j => (columns j).val
  lower_triangular : ∀ i j, i < j → lower i j = 0
  upper_triangular : ∀ i j, j < i → upper i j = 0
  product : A.submatrix rows columns = lower * upper

/-- An exact orthogonal and an exact upper triangular factor of a matrix. -/
structure ExactQr {m n : Nat} (f : QrFactors Exact) (A : Matrix (Fin m) (Fin n) ℝ) where
  orthogonal : Matrix (Fin m) (Fin m) ℝ
  upper : Matrix (Fin m) (Fin n) ℝ
  rotate_eq : ∀ c, f.rotate (vector c) = vector (orthogonalᵀ *ᵥ c)
  r_eq : f.r = toDense upper
  transpose_mul_self : orthogonalᵀ * orthogonal = 1
  upper_triangular : ∀ i j, j.val < i.val → upper i j = 0
  product : A = orthogonal * upper

/-- An exact triangular factor of the symmetric matrix with the same entries on and below the
diagonal. -/
structure ExactCholesky {n : Nat} (f : DenseMatrix Exact) (A : Matrix (Fin n) (Fin n) ℝ) where
  lower : Matrix (Fin n) (Fin n) ℝ
  lower_eq : f = toDense lower
  lower_triangular : ∀ i j, i < j → lower i j = 0
  product : ∀ i j, j ≤ i → A i j = (lower * lowerᵀ) i j

/-- Exact singular values of a matrix with a left and a right direction for each of them. There may be
more directions than values, and the directions of a value of zero are not looked at. -/
structure ExactSvd {m n : Nat} (f : SvdFactors Exact) (A : Matrix (Fin m) (Fin n) ℝ) where
  leftCount : Nat
  rightCount : Nat
  le_leftCount : min m n ≤ leftCount
  le_rightCount : min m n ≤ rightCount
  left : Matrix (Fin m) (Fin leftCount) ℝ
  right : Matrix (Fin n) (Fin rightCount) ℝ
  values : Fin (min m n) → ℝ
  u_eq : f.u = toDense left
  v_eq : f.v = toDense right
  sigma_eq : f.sigma = vector values
  nonneg : ∀ i, 0 ≤ values i
  left_orthonormal : ∀ i j, values i ≠ 0 → values j ≠ 0 →
    left.col (i.castLE le_leftCount) ⬝ᵥ left.col (j.castLE le_leftCount) = if i = j then 1 else 0
  right_orthonormal : ∀ i j, values i ≠ 0 → values j ≠ 0 →
    right.col (i.castLE le_rightCount) ⬝ᵥ right.col (j.castLE le_rightCount) = if i = j then 1 else 0
  product : A = ∑ i, values i •
    vecMulVec (left.col (i.castLE le_leftCount)) (right.col (i.castLE le_rightCount))

/-- The kernels factor a matrix exactly, each where its kind takes the shape. -/
structure Kernels.ExactAt [Kernels Exact] {m n : Nat} (A : Matrix (Fin m) (Fin n) ℝ) : Prop where
  lu : ∀ h : m = n, Nonempty (ExactLu (Kernels.lu (toDense A)) (A.submatrix id (Fin.cast h)))
  qr : n ≤ m → Nonempty (ExactQr (Kernels.qr (toDense A)) A)
  cholesky : ∀ (h : m = n) (lower : DenseMatrix Exact), Kernels.cholesky (toDense A) = some lower →
    Nonempty (ExactCholesky lower (A.submatrix id (Fin.cast h)))
  svd : ∀ f, Kernels.svd (toDense A) = some f → Nonempty (ExactSvd f A)

end Dense

section Lists

variable {n : Nat}

/-- A list is told by its length and its entries. -/
theorem eq_vector_of_getD {xs : List Exact} {x : Fin n → ℝ} (hlength : xs.length = n)
    (h : ∀ i : Fin n, xs.getD i 0 = real (x i)) : xs = vector x := by
  refine List.ext_getElem (by simp [hlength]) fun i hi hi' => ?_
  have hentry := h ⟨i, hlength ▸ hi⟩
  rw [List.getD_eq_getElem _ _ hi] at hentry
  rw [hentry, vector_getElem]

/-- A list whose entries are finite numbers is a vector. -/
theorem exists_vector_of_all {xs : List Exact} (hlength : xs.length = n)
    (h : xs.all Scalar.isFinite = true) : ∃ x : Fin n → ℝ, xs = vector x := by
  have hentry (i : Fin n) : ∃ x, xs.getD i 0 = real x := by
    rw [List.getD_eq_getElem _ _ (hlength ▸ i.isLt)]
    exact isFinite_iff.mp (List.all_eq_true.mp h _ (List.getElem_mem _))
  choose x hx using hentry
  exact ⟨x, eq_vector_of_getD hlength hx⟩

end Lists

section Triangular

variable {n : Nat}

/-- A triangular matrix without a zero on its diagonal sends only zero to zero. -/
theorem eq_zero_of_lower {L : Matrix (Fin n) (Fin n) ℝ} (hlower : ∀ i j, i < j → L i j = 0)
    (hdiagonal : ∀ i, L i i ≠ 0) {z : Fin n → ℝ} (h : L *ᵥ z = 0) : z = 0 := by
  have hdet : L.det ≠ 0 := by
    rw [det_of_isLowerTriangular L fun i j hij => hlower i j hij]
    exact Finset.prod_ne_zero_iff.mpr fun i _ => hdiagonal i
  exact eq_zero_of_mulVec_eq_zero hdet h

theorem eq_zero_of_upper {R : Matrix (Fin n) (Fin n) ℝ} (hupper : ∀ i j, j < i → R i j = 0)
    (hdiagonal : ∀ i, R i i ≠ 0) {z : Fin n → ℝ} (h : R *ᵥ z = 0) : z = 0 := by
  have hdet : R.det ≠ 0 := by
    rw [det_of_isUpperTriangular fun i j hij => hupper i j hij]
    exact Finset.prod_ne_zero_iff.mpr fun i _ => hdiagonal i
  exact eq_zero_of_mulVec_eq_zero hdet h

end Triangular

section Square

variable {n : Nat} {A : Matrix (Fin n) (Fin n) ℝ} {b x : Fin n → ℝ}

/-- What solves a square system whose matrix sends only zero to zero is its shortest solution. -/
theorem isShortestSolution_of_mulVec_eq (h : A *ᵥ x = b) (hinjective : ∀ z, A *ᵥ z = 0 → z = 0) :
    IsShortestSolution A b x := by
  refine .of_injective ?_ hinjective
  rw [h, sub_self, mulVec_zero]

theorem toDense_transpose {m : Nat} (A : Matrix (Fin m) (Fin n) ℝ) :
    (toDense A).transpose = toDense Aᵀ := by
  refine DenseMatrix.ext_entry rfl rfl fun i j hi hj => ?_
  change i < n at hi
  change j < m at hj
  have hentry : (toDense A).transpose.entry i j = (toDense A).entry j i :=
    DenseMatrix.entry_ofFn _ _ _ hi hj
  rw [hentry, readsMatrix_toDense A, readsMatrix_toDense Aᵀ, extend, extend, dif_pos ⟨hj, hi⟩,
    dif_pos ⟨hi, hj⟩, transpose_apply]

theorem idxOf_ofFn_perm (q : Equiv.Perm (Fin n)) (j : Fin n) :
    (List.ofFn fun i => (q i).val).idxOf j.val = (q.symm j).val := by
  have hnodup : (List.ofFn fun i => (q i).val).Nodup :=
    List.nodup_ofFn.mpr (Fin.val_injective.comp q.injective)
  have hidx := hnodup.idxOf_getElem (q.symm j).val (by simp)
  simpa using hidx

/-- Two substitutions that answer real numbers solve a product of triangular matrices, and the product
sends only zero to zero. -/
theorem of_substitutions {L R : Matrix (Fin n) (Fin n) ℝ} (hlower : ∀ i j, i < j → L i j = 0)
    (hupper : ∀ i j, j < i → R i j = 0)
    (h : backwardSubstitution (toDense R) n (forwardSubstitution (toDense L) (vector b) n) =
      vector x) :
    (L * R) *ᵥ x = b ∧ ∀ z, (L * R) *ᵥ z = 0 → z = 0 := by
  have hbelow := of_backwardSubstitution_real le_rfl (fun i j hji => hupper i j hji)
    (forwardSubstitution_length ..).ge h
  have hmiddle : forwardSubstitution (toDense L) (vector b) n = vector (R *ᵥ x) :=
    eq_vector_of_getD (forwardSubstitution_length ..) fun i => (hbelow i).2
  have habove := of_forwardSubstitution_real hlower hmiddle
  constructor
  · funext i
    have hentry := (habove i).2
    rw [getD_vector, padded_val, mulVec_mulVec] at hentry
    exact (real.inj hentry).symm
  · intro z hz
    rw [← mulVec_mulVec] at hz
    have hinner := eq_zero_of_lower hlower (fun i => (habove i).1) hz
    exact eq_zero_of_upper hupper (fun i => (hbelow i).1) hinner

/-- A solve by exact triangular factors answers the solution of the system. -/
theorem Dense.ExactLu.isShortestSolution {f : LuFactors Exact} (h : ExactLu f A)
    (hx : ∀ i : Fin n, (f.solve (vector b)).getD i 0 = real (x i)) : IsShortestSolution A b x := by
  have hsize : f.upper.nrows = n := by rw [h.upper_eq, nrows_toDense]
  have hreordered : (f.rowOrder.map fun i => (vector b).getD i 0) = vector (b ∘ h.rows) := by
    rw [h.rowOrder_eq, List.map_ofFn]
    refine congrArg List.ofFn (funext fun i => ?_)
    exact (getD_vector b _).trans (congrArg real (padded_val b (h.rows i)))
  have hunknowns : backwardSubstitution f.upper n
      (forwardSubstitution f.lower (vector (b ∘ h.rows)) n) = vector (x ∘ h.columns) := by
    refine eq_vector_of_getD (backwardSubstitution_length ..) fun j => ?_
    rw [Function.comp_apply, ← hx (h.columns j), LuFactors.solve, hsize, hreordered,
      h.columnOrder_eq]
    simp [idxOf_ofFn_perm]
  rw [h.lower_eq, h.upper_eq] at hunknowns
  obtain ⟨hsolves, hinjective⟩ := of_substitutions h.lower_triangular h.upper_triangular hunknowns
  -- The product is the matrix with its rows and columns in another order.
  have hproduct (z : Fin n → ℝ) : (h.lower * h.upper) *ᵥ (z ∘ h.columns) = (A *ᵥ z) ∘ h.rows := by
    rw [← h.product, submatrix_mulVec_equiv, Function.comp_assoc, Equiv.self_comp_symm,
      Function.comp_id]
  rw [hproduct] at hsolves
  refine isShortestSolution_of_mulVec_eq (h.rows.surjective.injective_comp_right hsolves) ?_
  intro z hz
  have hzero := hinjective (z ∘ h.columns) (by rw [hproduct, hz]; rfl)
  exact h.columns.surjective.injective_comp_right hzero

/-- A solve by an exact factor of a symmetric matrix answers the solution of the system. -/
theorem Dense.ExactCholesky.isShortestSolution {f : DenseMatrix Exact} (h : ExactCholesky f A)
    (hsymmetric : Aᵀ = A) (hx : ∀ i : Fin n, (choleskySolve f (vector b)).getD i 0 = real (x i)) :
    IsShortestSolution A b x := by
  obtain ⟨L, rfl, hlower, hentries⟩ := h
  have hproduct : L * Lᵀ = A := by
    ext i j
    rcases le_total j i with hji | hij
    · exact (hentries i j hji).symm
    · have hmirror : A i j = A j i := (congrFun (congrFun hsymmetric i) j).symm
      rw [hmirror, hentries j i hij, mul_apply, mul_apply]
      exact Finset.sum_congr rfl fun k _ => mul_comm _ _
  have hunknowns : backwardSubstitution (toDense Lᵀ) n
      (forwardSubstitution (toDense L) (vector b) n) = vector x := by
    refine eq_vector_of_getD (backwardSubstitution_length ..) fun i => ?_
    rw [← hx i, choleskySolve, toDense_transpose]
    rfl
  obtain ⟨hsolves, hinjective⟩ := of_substitutions (R := Lᵀ) hlower
    (fun i j hji => hlower j i hji) hunknowns
  rw [hproduct] at hsolves hinjective
  exact isShortestSolution_of_mulVec_eq hsolves hinjective

end Square

section Tall

variable {m n : Nat} {A : Matrix (Fin m) (Fin n) ℝ} {b : Fin m → ℝ} {x : Fin n → ℝ}

/-- An orthogonal matrix changes neither the normal equations nor what is sent to zero. -/
theorem IsShortestSolution.rotate {Q : Matrix (Fin m) (Fin m) ℝ} (horthogonal : Qᵀ * Q = 1)
    (h : IsShortestSolution A (Qᵀ *ᵥ b) x) : IsShortestSolution (Q * A) b x := by
  have hback (z : Fin n → ℝ) : Qᵀ *ᵥ ((Q * A) *ᵥ z) = A *ᵥ z := by
    rw [mulVec_mulVec, ← Matrix.mul_assoc, horthogonal, Matrix.one_mul]
  constructor
  · rw [transpose_mul, ← mulVec_mulVec, mulVec_sub, hback]
    exact h.normal
  · intro z hz
    refine h.perpendicular z ?_
    rw [← hback z, hz, mulVec_zero]

/-- Real unknowns of the upper rows of a triangular system are its least-squares solution. The rows
below the triangle are what no solution can reach, and the triangle does not look at them. -/
theorem isShortestSolution_of_upper (hnm : n ≤ m) (hupper : ∀ i j, j.val < i.val → A i j = 0)
    (h : backwardSubstitution (toDense A) n (vector b) = vector x) : IsShortestSolution A b x := by
  have hbelow := of_backwardSubstitution_real hnm hupper (by rw [vector_length]; exact hnm) h
  have hrows (i : Fin n) : (A *ᵥ x - b) (i.castLE hnm) = 0 := by
    have hentry := (hbelow i).2
    rw [getD_vector] at hentry
    rw [Pi.sub_apply, ← real.inj hentry, ← padded_val b (i.castLE hnm)]
    exact sub_self _
  refine .of_injective ?_ ?_
  · funext j
    show ∑ i, Aᵀ j i * (A *ᵥ x - b) i = 0
    refine Finset.sum_eq_zero fun i _ => ?_
    by_cases hi : i.val < n
    · have hrow : (A *ᵥ x - b) i = 0 := hrows ⟨i, hi⟩
      rw [hrow, mul_zero]
    · rw [transpose_apply, hupper i j (by omega), zero_mul]
  · intro z hz
    have htop : A.submatrix (Fin.castLE hnm) id *ᵥ z = 0 :=
      funext fun i => congrFun hz (i.castLE hnm)
    exact eq_zero_of_upper (fun i j hji => hupper (i.castLE hnm) j hji) (fun i => (hbelow i).1) htop

/-- A solve by exact orthogonal factors answers the least-squares solution. -/
theorem Dense.ExactQr.isShortestSolution {f : QrFactors Exact} (h : ExactQr f A) (hnm : n ≤ m)
    (hx : ∀ i : Fin n, (f.column n (vector b)).getD i 0 = real (x i)) : IsShortestSolution A b x := by
  have hcols : f.r.ncols = n := by rw [h.r_eq, ncols_toDense]
  have hunknowns : backwardSubstitution (toDense h.upper) n (vector (h.orthogonalᵀ *ᵥ b)) =
      vector x := by
    have hlength := backwardSubstitution_length (toDense h.upper) n (vector (h.orthogonalᵀ *ᵥ b))
    refine eq_vector_of_getD hlength fun i => ?_
    rw [← hx i, QrFactors.column, QrFactors.solve, hcols, h.r_eq, h.rotate_eq,
      List.getD_append _ _ _ _ (by rw [hlength]; exact i.isLt)]
  rw [h.product]
  exact (isShortestSolution_of_upper hnm h.upper_triangular hunknowns).rotate h.transpose_mul_self

end Tall

end LeastSquares
