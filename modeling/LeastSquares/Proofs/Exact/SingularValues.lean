import Mathlib.Algebra.BigOperators.Field
import LeastSquares.Proofs.Exact.Factorizations

/-!
# Exact singular values

The singular values of a matrix that are not zero belong to the directions in which the matrix is not
zero. A solve by exact singular values goes along these directions alone, by the share that the
right-hand side has in each, so it answers the shortest least-squares solution. The cutoff of the solve
is what can come in between: it may take a value for zero that is not.
-/

namespace LeastSquares

open Matrix Exact LeastSquares.Dense

section Directions

variable {m n k : Nat} {A : Matrix (Fin m) (Fin n) ℝ} {b : Fin m → ℝ} {σ : Fin k → ℝ}
  {u : Fin k → Fin m → ℝ} {v : Fin k → Fin n → ℝ}

/-- A direction of a value that counts picks its coefficient out of a combination of directions. -/
theorem dotProduct_combination
    (horthonormal : ∀ i j, σ i ≠ 0 → σ j ≠ 0 → u i ⬝ᵥ u j = if i = j then 1 else 0) {c : Fin k → ℝ}
    (hc : ∀ j, σ j = 0 → c j = 0) {i : Fin k} (hi : σ i ≠ 0) : u i ⬝ᵥ ∑ j, c j • u j = c i := by
  rw [dotProduct_sum, Finset.sum_eq_single i]
  · rw [dotProduct_smul, horthonormal i i hi hi, if_pos rfl, smul_eq_mul, mul_one]
  · intro j _ hji
    rw [dotProduct_smul]
    by_cases hj : σ j = 0
    · rw [hc j hj, zero_smul]
    · rw [horthonormal i j hi hj, if_neg (Ne.symm hji), smul_zero]
  · exact fun h => (h (Finset.mem_univ i)).elim

theorem mulVec_of_product (hproduct : A = ∑ i, σ i • vecMulVec (u i) (v i)) (z : Fin n → ℝ) :
    A *ᵥ z = ∑ i, (σ i * (v i ⬝ᵥ z)) • u i := by
  rw [hproduct, sum_mulVec]
  refine Finset.sum_congr rfl fun i _ => ?_
  rw [smul_mulVec, vecMulVec_mulVec, op_smul_eq_smul, smul_smul]

/-- The inverses of the values that count, along their directions, lead to the shortest solution. -/
theorem isShortestSolution_of_directions
    (hleft : ∀ i j, σ i ≠ 0 → σ j ≠ 0 → u i ⬝ᵥ u j = if i = j then 1 else 0)
    (hright : ∀ i j, σ i ≠ 0 → σ j ≠ 0 → v i ⬝ᵥ v j = if i = j then 1 else 0)
    (hproduct : A = ∑ i, σ i • vecMulVec (u i) (v i)) {w : Fin k → ℝ}
    (hzero : ∀ i, σ i = 0 → w i = 0) (hw : ∀ i, σ i ≠ 0 → w i = (u i ⬝ᵥ b) / σ i) :
    IsShortestSolution A b (∑ i, w i • v i) := by
  have himage (z : Fin n → ℝ) {i : Fin k} (hi : σ i ≠ 0) : u i ⬝ᵥ A *ᵥ z = σ i * (v i ⬝ᵥ z) := by
    rw [mulVec_of_product hproduct]
    exact dotProduct_combination hleft (fun j hj => by rw [hj, zero_mul]) hi
  constructor
  · have htranspose : Aᵀ = ∑ i, σ i • vecMulVec (v i) (u i) := by
      rw [hproduct, transpose_sum]
      exact Finset.sum_congr rfl fun i _ => by rw [transpose_smul, transpose_vecMulVec]
    rw [mulVec_of_product htranspose]
    refine Finset.sum_eq_zero fun i _ => ?_
    by_cases hi : σ i = 0
    · rw [hi, zero_mul, zero_smul]
    · have hresidual : u i ⬝ᵥ (A *ᵥ (∑ i, w i • v i) - b) = 0 := by
        rw [dotProduct_sub, himage _ hi, dotProduct_combination hright hzero hi, hw i hi,
          mul_div_cancel₀ _ hi, sub_self]
      rw [hresidual, mul_zero, zero_smul]
  · intro z hz
    rw [sum_dotProduct]
    refine Finset.sum_eq_zero fun i _ => ?_
    rw [smul_dotProduct]
    by_cases hi : σ i = 0
    · rw [hzero i hi, zero_smul]
    · have hproductZero := himage z hi
      rw [hz, dotProduct_zero] at hproductZero
      rw [(mul_eq_zero.mp hproductZero.symm).resolve_left hi, smul_zero]

end Directions

section Singular

variable {m n : Nat} {A : Matrix (Fin m) (Fin n) ℝ} {b : Fin m → ℝ} {x : Fin n → ℝ}

/-- A product in exact arithmetic; entries of the column past the last one of the list are zero. -/
theorem getD_mulVec_toDense (M : Matrix (Fin m) (Fin n) ℝ) {xs : List Exact} {z : ℕ → ℝ}
    (hz : Reads xs z) (i : Fin m) :
    ((toDense M).mulVec xs).getD i 0 =
      real (∑ j ∈ Finset.range xs.length, extend M i j * z j) := by
  have hsum := foldl_products (f := (· + ·)) (s := 1) (fun x y => by rw [one_mul, real_add])
    ((readsMatrix_toDense M).getD_drop_row i 0) hz 0
  have hentry : ((toDense M).mulVec xs).getD i 0 =
      Scalar.sumFromZero (Scalar.products ((toDense M).row i) xs) := by
    simp [DenseMatrix.mulVec, DenseMatrix.toRows]
  rw [hentry, Scalar.sumFromZero, zero_eq, ← List.drop_zero (l := (toDense M).row i), hsum, zero_add,
    one_mul]
  simp only [Nat.zero_add]

theorem mulVec_toDense (M : Matrix (Fin m) (Fin n) ℝ) (z : Fin n → ℝ) :
    (toDense M).mulVec (vector z) = vector (M *ᵥ z) := by
  refine eq_vector_of_getD (DenseMatrix.mulVec_length ..) fun i => ?_
  rw [getD_mulVec_toDense M (reads_vector z), vector_length, ← mulVec_eq_sum]

/-- The largest of real numbers and a start is real, and none of them is above it. -/
theorem exists_foldl_max {k : Nat} (σ : Fin k → ℝ) (a : ℝ) :
    ∃ largest, a ≤ largest ∧ (∀ i, σ i ≤ largest) ∧
      (vector σ).foldl Scalar.max (real a) = real largest := by
  induction k generalizing a with
  | zero => exact ⟨a, le_rfl, fun i => i.elim0, by simp [vector]⟩
  | succ k ih =>
      obtain ⟨largest, hle, hlater, hfold⟩ := ih (fun i => σ i.succ) (max a (σ 0))
      refine ⟨largest, (le_max_left ..).trans hle, ?_, ?_⟩
      · exact fun i => Fin.cases ((le_max_right ..).trans hle) hlater i
      · rw [vector_succ, List.foldl_cons, max_real]
        exact hfold

/-- The length of a vector in exact arithmetic. It does not show that the entries are divided by the
largest one before they are squared. -/
theorem scaledLength_vector {k : Nat} (x : Fin k → ℝ) :
    scaledLength (vector x) = real √(x ⬝ᵥ x) := by
  obtain ⟨largest, hnonneg, hle, hfold⟩ := exists_foldl_max (fun i => |x i|) 0
  have hlargest : largestMagnitude (vector x) = real largest := by
    rw [← hfold, ← map_vector (f := Scalar.abs) (g := abs) abs_real, List.foldl_map]
    rfl
  rw [scaledLength, hlargest]
  simp only [zero_eq, lt_real, isFinite_real, Bool.and_true, decide_eq_true_eq]
  by_cases hzero : largest = 0
  · have hx : x = 0 := funext fun i => abs_nonpos_iff.mp (hzero ▸ hle i)
    rw [if_neg (by rw [hzero]; exact lt_irrefl 0), hx, hzero, dotProduct_zero, Real.sqrt_zero]
  · have hpositive : 0 < largest := lt_of_le_of_ne hnonneg (Ne.symm hzero)
    have hsquare (y : ℝ) : real y / real largest * (real y / real largest) =
        real (y / largest * (y / largest)) := by
      rw [real_div y hzero, real_mul]
    have hsum : ∑ i, x i / largest * (x i / largest) = x ⬝ᵥ x / largest ^ 2 := by
      rw [dotProduct, Finset.sum_div]
      exact Finset.sum_congr rfl fun i _ => by ring
    rw [if_pos hpositive, map_vector hsquare, Scalar.sumFromZero, zero_eq, foldl_add_vector, zero_add,
      hsum, sqrt_real (div_nonneg (dotProduct_self_nonneg x) (sq_nonneg largest)), real_mul,
      Real.sqrt_div (dotProduct_self_nonneg x), Real.sqrt_sq hnonneg, mul_div_cancel₀ _ hzero]

/-- A cutoff in exact arithmetic is real, and it is not below zero. -/
theorem exists_cutoff {k : Nat} (σ : Fin k → ℝ) (dim : Nat) :
    ∃ cutoff, 0 ≤ cutoff ∧ rankTolerance (largestOf (vector σ)) dim = real cutoff := by
  obtain ⟨largest, hnonneg, -, hlargest⟩ := exists_foldl_max σ 0
  refine ⟨largest * dim * 2 ^ (-52 : ℤ), by positivity, ?_⟩
  rw [largestOf, zero_eq, hlargest]
  rfl

/-- No singular value above zero is at or below the cutoff that a solve applies. -/
def Dense.SvdFactors.NoneCutOff (f : SvdFactors Exact) (nrows ncols : Nat) : Prop :=
  let cutoff := rankTolerance (largestOf f.sigma) (Nat.max nrows ncols)
  ∀ s ∈ f.sigma, ¬(Scalar.lt 0 s = true ∧ Scalar.le s cutoff = true)

/-- The weights of a solve that takes the values up to a given cutoff for zero. -/
def Dense.SvdFactors.weightsAbove {α : Type} [Scalar α] (f : SvdFactors α) (cutoff : α) (ncols : Nat)
    (b : List α) : List α :=
  (List.range ncols).map fun i =>
    match f.sigma[i]? with
    | some s => if Scalar.lt cutoff s then (f.u.transpose.mulVec b).getD i 0 / s else 0
    | none => 0

/-- The weights for a cutoff: the shares of the right-hand side over the values above it. -/
theorem Dense.SvdFactors.reads_weightsAbove {f : SvdFactors Exact} {k : Nat} (hk : min m n ≤ k)
    {left : Matrix (Fin m) (Fin k) ℝ} {values : Fin (min m n) → ℝ} (hu : f.u = toDense left)
    (hsigma : f.sigma = vector values) {cutoff : ℝ} (hnonneg : 0 ≤ cutoff) :
    Reads (f.weightsAbove (real cutoff) n (vector b)) (padded fun i =>
      if cutoff < values i then (left.col (i.castLE hk) ⬝ᵥ b) / values i else 0) := by
  have hshare (i : Fin (min m n)) : (f.u.transpose.mulVec (vector b)).getD i 0 =
      real (left.col (i.castLE hk) ⬝ᵥ b) := by
    rw [hu, toDense_transpose, mulVec_toDense, getD_vector]
    exact congrArg real (padded_val (leftᵀ *ᵥ b) (i.castLE hk))
  intro i hi
  rw [List.getD_eq_getElem _ _ hi]
  simp only [weightsAbove, List.getElem_map, List.getElem_range]
  by_cases hcount : i < min m n
  · have hvalue : f.sigma[i]? = some (real (values ⟨i, hcount⟩)) := by
      rw [hsigma, List.getElem?_eq_getElem (by simpa using hcount), vector_getElem]
    simp only [hvalue, hshare ⟨i, hcount⟩, lt_real, decide_eq_true_eq, padded, dif_pos hcount]
    by_cases habove : cutoff < values ⟨i, hcount⟩
    · rw [if_pos habove, if_pos habove, real_div _ (hnonneg.trans_lt habove).ne']
    · rw [if_neg habove, if_neg habove, zero_eq]
  · have hnone : f.sigma[i]? = none := by
      rw [hsigma, List.getElem?_eq_none (by rw [vector_length]; exact Nat.not_lt.mp hcount)]
    simp only [hnone, padded, dif_neg hcount, zero_eq]

/-- The weights of a solve: the shares of the right-hand side over the values that are not zero. -/
theorem Dense.ExactSvd.reads_weights {f : SvdFactors Exact} (h : ExactSvd f A)
    (hcutoff : f.NoneCutOff m n) :
    Reads (f.weights m n (vector b)) (padded fun i =>
      if h.values i = 0 then 0 else (h.left.col (i.castLE h.le_leftCount) ⬝ᵥ b) / h.values i) := by
  obtain ⟨cutoff, hnonneg, hreal⟩ := exists_cutoff h.values (Nat.max m n)
  rw [← h.sigma_eq] at hreal
  have hweights : f.weights m n (vector b) = f.weightsAbove (real cutoff) n (vector b) := by
    rw [← hreal]
    rfl
  have habove (i : Fin (min m n)) : cutoff < h.values i ↔ h.values i ≠ 0 := by
    have hmem : real (h.values i) ∈ f.sigma := h.sigma_eq ▸ List.mem_ofFn.mpr ⟨i, rfl⟩
    have hkept := hcutoff _ hmem
    simp only [hreal, zero_eq, lt_real, le_real, decide_eq_true_eq, not_and, not_le] at hkept
    constructor
    · exact fun hlt => (hnonneg.trans_lt hlt).ne'
    · exact fun hne => hkept (lt_of_le_of_ne (h.nonneg i) (Ne.symm hne))
  rw [hweights]
  have hreads := SvdFactors.reads_weightsAbove (b := b) h.le_leftCount h.u_eq h.sigma_eq hnonneg
  simpa only [habove, ne_eq, ite_not] using hreads

/-- Weights lead along the right directions; there are none past the last singular value. -/
theorem getD_mulVec_directions {k : Nat} (hk : min m n ≤ k) (right : Matrix (Fin n) (Fin k) ℝ)
    {ws : List Exact} {w : Fin (min m n) → ℝ} (hcount : ws.length = n) (hws : Reads ws (padded w))
    (j : Fin n) :
    ((toDense right).mulVec ws).getD j 0 =
      real ((∑ i, w i • right.col (i.castLE hk)) j) := by
  rw [getD_mulVec_toDense right hws, hcount, Finset.sum_apply]
  have hpast : ∀ l ∈ Finset.range n, l ∉ Finset.range (min m n) →
      extend right j l * padded w l = 0 := fun l _ hl => by
    rw [padded, dif_neg fun hlt => hl (Finset.mem_range.mpr hlt), mul_zero]
  rw [← Finset.sum_subset (Finset.range_subset_range.mpr (Nat.min_le_right m n)) hpast,
    Finset.sum_range]
  refine congrArg real (Finset.sum_congr rfl fun i _ => ?_)
  have hdirection : extend right j i = right j (i.castLE hk) :=
    extend_val right j (i.castLE hk)
  rw [hdirection, padded_val, mul_comm]
  rfl

/-- A solve by exact singular values answers the shortest least-squares solution, if the cutoff takes
none of the values that are not zero. -/
theorem Dense.ExactSvd.isShortestSolution {f : SvdFactors Exact} (h : ExactSvd f A)
    (hcutoff : f.NoneCutOff m n)
    (hx : ∀ i : Fin n, (f.solve m n (vector b)).getD i 0 = real (x i)) :
    IsShortestSolution A b x := by
  have hreads := h.reads_weights (b := b) hcutoff
  have htake : (vector b).take m = vector b := List.take_of_length_le (vector_length b).le
  have hcount : (f.weights m n (vector b)).length = n := by simp [SvdFactors.weights]
  generalize hw : (fun i => if h.values i = 0 then 0
    else (h.left.col (i.castLE h.le_leftCount) ⬝ᵥ b) / h.values i) = w at hreads
  have hsolution : x = ∑ i, w i • h.right.col (i.castLE h.le_rightCount) := by
    funext j
    have hunknown := hx j
    rw [SvdFactors.solve, htake, h.v_eq, getD_mulVec_directions h.le_rightCount h.right hcount hreads]
      at hunknown
    exact (real.inj hunknown).symm
  rw [hsolution]
  refine isShortestSolution_of_directions h.left_orthonormal h.right_orthonormal h.product ?_ ?_
  · intro i hi
    rw [← hw]
    exact if_pos hi
  · intro i hi
    rw [← hw]
    exact if_neg hi

end Singular

end LeastSquares
