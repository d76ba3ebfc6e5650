import LeastSquares.Proofs.Exact.DenseSolve

/-!
# Solving by the singular values above a cutoff

An orthogonal matrix on either side and the singular values on a diagonal between them make up a matrix
of any shape. A solve by these factors leaves out the values up to its cutoff. It answers the shortest
least-squares solution of the matrix that is made up of the other values alone, whatever the shape of
the matrix, however many of its values are zero, and whatever stands in the rows of the right-hand side
below the last row of the matrix (`svd_solves_truncated`). The rows of the answer below the last unknown
are zero.

The cutoff depends on the precision, of which exact arithmetic has none of its own. So the gap above one
is left open.
-/

namespace LeastSquares

open Matrix Exact LeastSquares.Dense

/-- Exact arithmetic, with another gap between one and the next larger scalar. -/
@[reducible] noncomputable def Exact.withEpsilon (ε : ℝ) : Scalar Exact :=
  { (inferInstance : Scalar Exact) with epsilon := real ε }

section Diagonal

variable {m n : Nat}

/-- The rectangle with the given values on its diagonal. -/
def rectangle (values : Fin (min m n) → ℝ) : Matrix (Fin m) (Fin n) ℝ :=
  Matrix.of fun i j => if i.val = j.val then padded values i else 0

/-- A product around a diagonal is the sum of its values along their directions. -/
theorem mul_rectangle_mul (U : Matrix (Fin m) (Fin m) ℝ) (V : Matrix (Fin n) (Fin n) ℝ)
    (values : Fin (min m n) → ℝ) :
    U * rectangle values * Vᵀ = ∑ i, values i •
      vecMulVec (U.col (i.castLE (Nat.min_le_left m n))) (V.col (i.castLE (Nat.min_le_right m n))) := by
  ext a c
  have hrow (j : Fin n) : (U * rectangle values) a j = extend U a j * padded values j := by
    have hentry (i : Fin m) : U a i * rectangle values i j =
        if i.val = j.val then extend U a i * padded values i else 0 := by
      rw [rectangle, of_apply, extend_val, mul_ite, mul_zero]
    rw [mul_apply, Finset.sum_congr rfl fun i _ => hentry i,
      ← Finset.sum_range fun i => if i = j.val then extend U a i * padded values i else 0,
      Finset.sum_ite_eq']
    split
    · rfl
    · rename_i hpast
      have hlt : ¬j.val < min m n := fun hlt => hpast (Finset.mem_range.mpr (by omega))
      rw [padded, dif_neg hlt, mul_zero]
  have hpast : ∀ j ∈ Finset.range n, j ∉ Finset.range (min m n) →
      extend U a j * padded values j * extend V c j = 0 := fun j _ hj => by
    rw [padded, dif_neg fun hlt => hj (Finset.mem_range.mpr hlt), mul_zero, zero_mul]
  calc (U * rectangle values * Vᵀ) a c
      = ∑ j : Fin n, extend U a j * padded values j * extend V c j := by
        rw [mul_apply]
        exact Finset.sum_congr rfl fun j _ => by rw [hrow, transpose_apply, extend_val V]
    _ = ∑ j ∈ Finset.range (min m n), extend U a j * padded values j * extend V c j := by
        rw [← Finset.sum_range fun j => extend U a j * padded values j * extend V c j,
          Finset.sum_subset (Finset.range_subset_range.mpr (Nat.min_le_right m n)) hpast]
    _ = _ := by
        rw [Finset.sum_range, Matrix.sum_apply]
        refine Finset.sum_congr rfl fun i _ => ?_
        have hleft : extend U a i = U a (i.castLE (Nat.min_le_left m n)) :=
          extend_val U a (i.castLE (Nat.min_le_left m n))
        have hright : extend V c i = V c (i.castLE (Nat.min_le_right m n)) :=
          extend_val V c (i.castLE (Nat.min_le_right m n))
        rw [hleft, hright, padded_val, Matrix.smul_apply, vecMulVec_apply, smul_eq_mul]
        simp only [col_apply]
        ring

/-- The columns of an orthogonal matrix are orthonormal. -/
theorem col_dotProduct_col {U : Matrix (Fin m) (Fin m) ℝ} (h : Uᵀ * U = 1) (i j : Fin m) :
    U.col i ⬝ᵥ U.col j = if i = j then 1 else 0 := by
  have hentry : (Uᵀ * U) i j = U.col i ⬝ᵥ U.col j := rfl
  rw [← hentry, h, one_apply]

end Diagonal

/-- Factors of a matrix with all directions on either side. -/
structure Dense.FullSvd {m n : Nat} (f : SvdFactors Exact) (A : Matrix (Fin m) (Fin n) ℝ) where
  left : Matrix (Fin m) (Fin m) ℝ
  right : Matrix (Fin n) (Fin n) ℝ
  values : Fin (min m n) → ℝ
  u_eq : f.u = toDense left
  v_eq : f.v = toDense right
  sigma_eq : f.sigma = vector values
  nonneg : ∀ i, 0 ≤ values i
  left_orthogonal : leftᵀ * left = 1
  right_orthogonal : rightᵀ * right = 1
  product : A = left * rectangle values * rightᵀ

namespace Dense.FullSvd

variable {m n : Nat} {f : SvdFactors Exact} {A : Matrix (Fin m) (Fin n) ℝ} (h : FullSvd f A)
  (cutoff : ℝ)

/-- The values above the cutoff, and zero for the others. -/
noncomputable def kept (i : Fin (min m n)) : ℝ := if cutoff < h.values i then h.values i else 0

/-- The matrix that is made up of the values above the cutoff alone. -/
noncomputable def truncated : Matrix (Fin m) (Fin n) ℝ := h.left * rectangle (h.kept cutoff) * h.rightᵀ

/-- How far to go along the right direction of a value: as far as the right-hand side goes along the
left one, over the value. -/
noncomputable def coefficient (b : Fin m → ℝ) (i : Fin (min m n)) : ℝ :=
  if cutoff < h.values i then
    (h.left.col (i.castLE (Nat.min_le_left m n)) ⬝ᵥ b) / h.values i
  else 0

/-- The combination of the right directions by these coefficients. -/
noncomputable def solution (b : Fin m → ℝ) : Fin n → ℝ :=
  ∑ i, h.coefficient cutoff b i • h.right.col (i.castLE (Nat.min_le_right m n))

variable {cutoff}

theorem kept_eq_zero_iff (hnonneg : 0 ≤ cutoff) (i : Fin (min m n)) :
    h.kept cutoff i = 0 ↔ ¬cutoff < h.values i := by
  unfold kept
  constructor
  · intro hzero habove
    rw [if_pos habove] at hzero
    exact absurd hzero (hnonneg.trans_lt habove).ne'
  · exact fun hbelow => if_neg hbelow

/-- The combination is the shortest least-squares solution for the values above the cutoff. -/
theorem isShortestSolution (hnonneg : 0 ≤ cutoff) (b : Fin m → ℝ) :
    IsShortestSolution (h.truncated cutoff) b (h.solution cutoff b) := by
  refine isShortestSolution_of_directions (σ := h.kept cutoff) ?_ ?_
    (mul_rectangle_mul h.left h.right (h.kept cutoff)) ?_ ?_
  · intro i j _ _
    rw [col_dotProduct_col h.left_orthogonal]
    simp only [Fin.ext_iff, Fin.val_castLE]
  · intro i j _ _
    rw [col_dotProduct_col h.right_orthogonal]
    simp only [Fin.ext_iff, Fin.val_castLE]
  · intro i hi
    exact if_neg ((h.kept_eq_zero_iff hnonneg i).mp hi)
  · intro i hi
    have habove : cutoff < h.values i := by
      rw [ne_eq, h.kept_eq_zero_iff hnonneg, not_not] at hi
      exact hi
    rw [coefficient, kept, if_pos habove, if_pos habove]

/-- A solve for a cutoff answers the combination. -/
theorem mulVec_weightsAbove (hnonneg : 0 ≤ cutoff) (b : Fin m → ℝ) :
    f.v.mulVec (f.weightsAbove (real cutoff) n (vector b)) = vector (h.solution cutoff b) := by
  have hcount : (f.weightsAbove (real cutoff) n (vector b)).length = n := by
    simp [SvdFactors.weightsAbove]
  have hreads : Reads (f.weightsAbove (real cutoff) n (vector b)) (padded (h.coefficient cutoff b)) :=
    SvdFactors.reads_weightsAbove (Nat.min_le_left m n) h.u_eq h.sigma_eq hnonneg
  rw [h.v_eq]
  refine eq_vector_of_getD (DenseMatrix.mulVec_length ..) fun j => ?_
  exact getD_mulVec_directions (Nat.min_le_right m n) h.right hcount hreads j

end Dense.FullSvd

namespace Dense

section Solver

variable {α : Type} [Scalar α] [Kernels α]

/-- After a matrix of finite entries was factored by singular values, a solve for a single column that
is long enough on either side works on it without a fault. -/
theorem Solver.solve_svd {solver : Solver α .svd} {a b : DenseMatrix α} {f : SvdFactors α}
    (hfinite : a.allFinite = true) (hf : Kernels.svd a = some f) (hcols : b.ncols = 1)
    (hleft : f.u.nrows ≤ b.nrows) (hright : f.v.nrows ≤ b.nrows) :
    (solver.factor a).2 = .ok () ∧
      (solver.factor a).1.solve b =
        requireSolution (mapColumns (f.solve f.u.nrows f.v.nrows) b) f.v.nrows := by
  have hfactor : Dense.factor .svd a = .ok ⟨f.u.nrows, f.v.nrows, .svd f⟩ := by
    simp [Dense.factor, requireFinite, hfinite, hf]
  have hsolver : solver.factor a = (.svd f.u f.v f.sigma true, .ok ()) := by
    simp only [Solver.factor, hfactor, Solver.ofFactored]
  rw [hsolver]
  refine ⟨rfl, ?_⟩
  simp [Solver.solve, Solver.held, Factored.solve, hcols, Nat.not_lt.mpr hleft,
    Nat.not_lt.mpr hright]

/-- A solution of a single column with zeros in the rows below it is what a solve answers. -/
theorem requireSolution_mapColumns {n : Nat} {g : List Exact → List Exact} {b : DenseMatrix Exact}
    {x : Fin n → ℝ} (hcols : b.ncols = 1) (hx : g (b.column 0) = vector x) :
    requireSolution (mapColumns g b) n = .ok (.ofFn b.nrows 1 fun i _ => real (padded x i)) := by
  have hone : 0 < b.ncols := by omega
  have himage : mapColumns g b = .ofFn b.nrows 1 fun i _ => real (padded x i) := by
    refine DenseMatrix.ext_entry rfl hcols fun i j hi hj => ?_
    change i < b.nrows at hi
    change j < b.ncols at hj
    obtain rfl : j = 0 := by omega
    rw [DenseMatrix.entry_ofFn _ _ _ hi Nat.one_pos, mapColumns, DenseMatrix.entry_ofColumns _ hi hj,
      ← getD_vector, ← hx]
    simp [hj]
  rw [himage]
  refine requireSolution_eq_ok.mpr ⟨Nat.one_ne_zero, List.all_eq_true.mpr fun y hy => ?_, rfl⟩
  obtain ⟨i, hi, rfl⟩ := List.mem_map.mp (List.mem_of_mem_take hy)
  have hentry := DenseMatrix.entry_ofFn b.nrows 1 (fun i _ => real (padded x i))
    (List.mem_range.mp hi) Nat.one_pos
  rw [hentry]
  rfl

end Solver

variable {m n : Nat} {A : Matrix (Fin m) (Fin n) ℝ}

/-- The cutoff of a solve in exact arithmetic is real, and it is not below zero. -/
theorem exists_rankTolerance {ε : ℝ} (hε : 0 ≤ ε) {k : Nat} (σ : Fin k → ℝ) (dim : Nat) :
    ∃ cutoff, 0 ≤ cutoff ∧
      @rankTolerance Exact (withEpsilon ε) (largestOf (vector σ)) dim = real cutoff := by
  obtain ⟨largest, hnonneg, -, hlargest⟩ := exists_foldl_max σ 0
  refine ⟨largest * dim * ε, by positivity, ?_⟩
  rw [largestOf, zero_eq, hlargest]
  rfl

/-- **Solving by singular values.** After a matrix with all directions on either side was factored, a
solve for one column with at least as many rows as the longer side of the matrix answers the shortest
least-squares solution for the values above the cutoff and the first rows of the column. The rows of the
answer below the last unknown are zero, and every singular value has a share of the right-hand side to
go with it. -/
theorem Solver.svd_solves_truncated [Kernels Exact] {ε : ℝ} (hε : 0 ≤ ε) {f : SvdFactors Exact}
    (hf : Kernels.svd (toDense A) = some f) (h : FullSvd f A) (solver : Solver Exact .svd)
    (rhs : DenseMatrix Exact) (hcols : rhs.ncols = 1) (hrows : Nat.max m n ≤ rhs.nrows)
    (b : Fin m → ℝ) (hb : ∀ i : Fin m, rhs.entry i 0 = real (b i)) :
    letI := withEpsilon ε
    (solver.factor (toDense A)).2 = .ok () ∧
      f.sigma.length ≤ (f.u.transpose.mulVec ((rhs.column 0).take m)).length ∧
      ∃ (cutoff : ℝ) (x : Fin n → ℝ),
        rankTolerance (largestOf f.sigma) (Nat.max m n) = real cutoff ∧
        (solver.factor (toDense A)).1.solve rhs =
          .ok (.ofFn rhs.nrows 1 fun i _ => real (padded x i)) ∧
        (h.truncated cutoff)ᵀ *ᵥ (h.truncated cutoff *ᵥ x - b) = 0 ∧
        ∀ z, (h.truncated cutoff)ᵀ *ᵥ (h.truncated cutoff *ᵥ z - b) = 0 → x ⬝ᵥ x ≤ z ⬝ᵥ z := by
  have hleft : f.u.nrows = m := by rw [h.u_eq, nrows_toDense]
  have hright : f.v.nrows = n := by rw [h.v_eq, nrows_toDense]
  have hm : m ≤ rhs.nrows := (Nat.le_max_left m n).trans hrows
  have hn : n ≤ rhs.nrows := (Nat.le_max_right m n).trans hrows
  have htake : (rhs.column 0).take m = vector b := by
    refine eq_vector_of_getD (by simpa using hm) fun i => ?_
    have hi : i.val < rhs.nrows := i.isLt.trans_le hm
    rw [← hb i]
    simp [DenseMatrix.column, hi]
  obtain ⟨cutoff, hnonneg, hcutoff⟩ := exists_rankTolerance hε h.values (Nat.max m n)
  rw [← h.sigma_eq] at hcutoff
  have hshortest := h.isShortestSolution hnonneg b
  obtain ⟨hfactor, hsolve⟩ := @Solver.solve_svd Exact (withEpsilon ε) _ solver (toDense A) rhs f
    (allFinite_toDense A) hf hcols (hleft.trans_le hm) (hright.trans_le hn)
  have hcolumn : @SvdFactors.solve Exact (withEpsilon ε) f m n (rhs.column 0) =
      vector (h.solution cutoff b) := by
    rw [← h.mulVec_weightsAbove hnonneg b, ← hcutoff, ← htake]
    rfl
  have hshares : (f.u.transpose.mulVec ((rhs.column 0).take m)).length = m := by
    rw [DenseMatrix.mulVec_length, h.u_eq]
    rfl
  have hvalues : f.sigma.length = min m n := by rw [h.sigma_eq, vector_length]
  refine ⟨hfactor, ?_, cutoff, h.solution cutoff b, hcutoff, ?_, hshortest.normal, ?_⟩
  · exact (hvalues.trans_le (Nat.min_le_left m n)).trans_eq hshares.symm
  · rw [hsolve, hleft, hright]
    exact requireSolution_mapColumns hcols hcolumn
  · intro z hz
    exact hshortest.le_of_normal hz

section Diagonal

/-- A value of ordinary size beside one that is next to nothing. -/
noncomputable def fourAndNext : Fin (min 2 2) → ℝ := ![(4 : ℕ), ((2 : ℕ) : ℝ) ^ (-60 : ℤ)]

/-- The factors of the diagonal matrix with these values; the directions are the axes. -/
noncomputable def diagonalFactors : SvdFactors Exact :=
  let axes : Matrix (Fin 2) (Fin 2) ℝ := 1
  ⟨toDense axes, toDense axes, vector fourAndNext⟩

/-- Kernels that know these factors. -/
@[reducible] noncomputable def diagonalKernels : Kernels Exact :=
  { standardKernels with svd := fun _ => some diagonalFactors }

noncomputable def fullSvd_diagonal : FullSvd diagonalFactors (rectangle fourAndNext) where
  left := 1
  right := 1
  values := fourAndNext
  u_eq := rfl
  v_eq := rfl
  sigma_eq := rfl
  nonneg i := by
    fin_cases i <;> simp [fourAndNext]
  left_orthogonal := by simp
  right_orthogonal := by simp
  product := by simp

/-- A column with an entry below the matrix that is no number. -/
noncomputable def longColumn : DenseMatrix Exact :=
  .ofFn 3 1 fun i _ => [real (4 : ℕ), real (8 : ℕ)].getD i nan

/-- The small value counts for nothing, and so does the entry that is no number. -/
theorem Solver.svd_solves_truncated_diagonal :
    letI := diagonalKernels
    ((fresh : Solver Exact .svd).factor (toDense (rectangle fourAndNext))).1.solve longColumn =
      .ok (.ofFn 3 1 fun i _ => real (padded ![1, 0] i)) := by
  have hb : ∀ i : Fin 2, longColumn.entry i 0 = real (![4, 8] i) := by
    intro i
    fin_cases i <;> rfl
  obtain ⟨-, -, cutoff, x, hcutoff, hsolve, hnormal, hle⟩ :=
    @Solver.svd_solves_truncated 2 2 (rectangle fourAndNext) diagonalKernels (2 ^ (-52 : ℤ))
      (by positivity) diagonalFactors rfl fullSvd_diagonal fresh longColumn rfl (by decide) ![4, 8] hb
  have hlargest : largestOf (vector fourAndNext) = real 4 := by
    simp only [vector, List.ofFn_succ, fourAndNext, largestOf, zero_eq]
    simp [max_real]
    norm_num
  have hcutoff : cutoff = 4 * 2 * 2 ^ (-52 : ℤ) := by
    have hreal : rankTolerance (largestOf (vector fourAndNext)) (Nat.max 2 2) = real cutoff := hcutoff
    rw [hlargest] at hreal
    exact (real.inj hreal).symm
  have htruncated : fullSvd_diagonal.truncated cutoff = !![4, 0; 0, 0] := by
    ext i j
    fin_cases i <;> fin_cases j <;>
      simp [FullSvd.truncated, FullSvd.kept, rectangle, padded, fullSvd_diagonal, fourAndNext, hcutoff]
    all_goals norm_num
  have hgradient (z : Fin 2 → ℝ) :
      !![4, 0; 0, 0]ᵀ *ᵥ (!![4, 0; 0, 0] *ᵥ z - ![4, 8]) = ![4 * (4 * z 0 - 4), 0] := by
    ext i
    fin_cases i <;> simp [mulVec, dotProduct, Fin.sum_univ_two]
  simp only [htruncated, hgradient] at hnormal hle
  have hzero : x 0 = 1 := by
    have hfirst : 4 * (4 * x 0 - 4) = 0 := congrFun hnormal 0
    linarith
  have hone : x 1 = 0 := by
    have hshort := hle ![1, 0] (by simp)
    simp only [dotProduct, Fin.sum_univ_two, hzero] at hshort
    exact mul_self_eq_zero.mp (le_antisymm (by simpa using hshort) (mul_self_nonneg _))
  have hx : x = ![1, 0] := by
    ext i
    fin_cases i
    · exact hzero
    · exact hone
  rw [hx] at hsolve
  exact hsolve

end Diagonal

end Dense

end LeastSquares
