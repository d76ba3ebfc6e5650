import LeastSquares.Proofs.Exact.SingularValues

/-!
# Dense solves in exact arithmetic

When the kernels factor a matrix exactly, every answer of a dense solve is the shortest least-squares
solution of its system, whichever factorization has found it (`solve_isShortestSolution`). There is only
one, so the strategy decides whether a system is answered but never what the answer is.

Two factorizations rely on what they do not test. The symmetric one takes the entries above the
diagonal to be those below it, and the one by singular values takes the values up to its cutoff for
zero. A matrix suits them if they are right in that.
-/

namespace LeastSquares

open Matrix Exact LeastSquares.Dense

theorem toDense_injective {m n : Nat} {A A' : Matrix (Fin m) (Fin n) ℝ}
    (h : toDense A = toDense A') : A = A' := by
  ext i j
  have hentry : (toDense A).entry i j = (toDense A').entry i j := by rw [h]
  rw [readsMatrix_toDense A, readsMatrix_toDense A', extend_val, extend_val] at hentry
  exact real.inj hentry

namespace Dense

variable {m n : Nat} {A : Matrix (Fin m) (Fin n) ℝ} {b : Fin m → ℝ} {x : Fin n → ℝ}

section Solving

variable [Kernels Exact]

/-- What a factorization takes for granted about a matrix. -/
def Factorization.Suits (kind : Factorization) (A : Matrix (Fin m) (Fin n) ℝ) : Prop :=
  match kind with
  | .lu | .qr => True
  | .cholesky => (toDense A).transpose = toDense A
  | .svd => ∀ f, Kernels.svd (toDense A) = some f → f.NoneCutOff m n

/-- What the factorization that a strategy selects takes for granted about a matrix. -/
def Strategy.Suits (strategy : Strategy) (A : Matrix (Fin m) (Fin n) ℝ) (tags : Tags) : Prop :=
  ∀ kind, strategy.factorization m n tags = .ok kind → kind.Suits A

/-- Real unknowns of exact factors are the shortest least-squares solution. -/
theorem FactorsOf.isShortestSolution {kind : Factorization} {factored : Factored Exact kind}
    (h : FactorsOf (toDense A) factored) (hexact : Kernels.ExactAt A) (hadmits : kind.Admits m n)
    (hsuits : kind.Suits A) (hx : ∀ i : Fin n, (factored.image (vector b)).getD i 0 = real (x i)) :
    IsShortestSolution A b x := by
  cases h with
  | lu =>
      obtain rfl : m = n := hadmits
      obtain ⟨hlu⟩ := hexact.lu rfl
      exact hlu.isShortestSolution hx
  | qr =>
      obtain ⟨hqr⟩ := hexact.qr hadmits
      exact hqr.isShortestSolution hadmits hx
  | cholesky lower hlower =>
      obtain rfl : m = n := hadmits
      obtain ⟨hcholesky⟩ := hexact.cholesky rfl lower hlower
      have hsymmetric : Aᵀ = A := toDense_injective ((toDense_transpose A).symm.trans hsuits)
      exact hcholesky.isShortestSolution hsymmetric hx
  | svd f hf =>
      obtain ⟨hsvd⟩ := hexact.svd f hf
      have hrows : f.u.nrows = m := by rw [hsvd.u_eq, nrows_toDense]
      have hcolumns : f.v.nrows = n := by rw [hsvd.v_eq, nrows_toDense]
      have hsolve (i : Fin n) : (f.solve f.u.nrows f.v.nrows (vector b)).getD i 0 = real (x i) :=
        hx i
      rw [hrows, hcolumns] at hsolve
      exact hsvd.isShortestSolution (hsuits f hf) hsolve

/-- What a factorization answers is the shortest least-squares solution. -/
theorem Factorization.exists_of_answer {kind : Factorization} (hexact : Kernels.ExactAt A)
    (hadmits : kind.Admits m n) (hsuits : kind.Suits A) {xs : List Exact}
    (h : kind.answer (toDense A) (vector b) = .ok xs) :
    ∃ x, xs = vector x ∧ IsShortestSolution A b x := by
  obtain ⟨factored, hfactored, hxs, hfinite⟩ := Factorization.answer_eq_ok.mp h
  rw [ncols_toDense] at hxs
  have hlength : xs.length = n := by simp [hxs, Factored.unknowns]
  obtain ⟨x, rfl⟩ := exists_vector_of_all hlength hfinite
  have himage (i : Fin n) : (factored.image (vector b)).getD i 0 = real (x i) := by
    rw [← padded_val x i, ← getD_vector, hxs]
    simp [Factored.unknowns]
  have hfactors := factorsOf_of_decompose hfactored
  exact ⟨x, rfl, hfactors.isShortestSolution hexact hadmits hsuits himage⟩

/-- What a dense solve answers is the shortest least-squares solution. -/
theorem exists_of_solve [Kernels.LawfulSvd Exact] (hexact : Kernels.ExactAt A) {strategy : Strategy}
    {tags : Tags} (hsuits : strategy.Suits A tags) {xs : List Exact}
    (h : solve strategy (toDense A) (vector b) tags = .ok xs) :
    ∃ x, xs = vector x ∧ IsShortestSolution A b x := by
  obtain ⟨-, hanswer⟩ := Strategy.answer_of_verdict (verdict_of_solve h)
  rcases hanswer with ⟨hcols, rfl⟩ | ⟨kind, hkind, hadmits, hanswer⟩
  · have hn : n = 0 := hcols
    subst hn
    exact ⟨0, rfl, .of_isEmpty⟩
  · exact kind.exists_of_answer hexact hadmits (hsuits kind hkind) hanswer

omit [Kernels Exact] in
theorem allFinite_toDense (A : Matrix (Fin m) (Fin n) ℝ) : (toDense A).allFinite = true :=
  allFinite_iff.mpr fun i _ j _ => isFinite_iff.mpr ⟨_, readsMatrix_toDense A i j⟩

/-- On real numbers the verdict is left to the factorization that a strategy selects. -/
theorem Strategy.verdict_toDense {strategy : Strategy} {tags : Tags} {kind : Factorization}
    (hn : n ≠ 0) (hkind : strategy.factorization m n tags = .ok kind) (hadmits : kind.Admits m n) :
    strategy.verdict (toDense A) (vector b) tags = kind.answer (toDense A) (vector b) := by
  have hselects := (strategy.selects_iff m n tags).mp ⟨kind, hkind⟩
  have hfinite : (vector b).all Scalar.isFinite = true :=
    List.all_eq_true.mpr fun x hx => by
      obtain ⟨i, rfl⟩ := List.mem_ofFn.mp hx
      rfl
  simp only [Strategy.verdict, Factorization.verdict, nrows_toDense, ncols_toDense, vector_length,
    allFinite_toDense, hfinite, hn, hselects, hkind, ne_eq, not_true_eq_false, if_false,
    Bool.true_eq_false]
  exact if_neg (not_not_intro hadmits)

end Solving

section Column

/-- A column of two entries. -/
def twoRows (x y : ℝ) : Matrix (Fin 2) (Fin 1) ℝ := !![x; y]

theorem mulVec_twoRows (x y : ℝ) (v : Fin 1 → ℝ) : twoRows x y *ᵥ v = ![x * v 0, y * v 0] := by
  ext i
  fin_cases i <;> simp [twoRows, mulVec, dotProduct]

theorem column_twoRows (x y : ℝ) : (toDense (twoRows x y)).column 0 = [real x, real y] := by
  refine (column_toDense (twoRows x y) 0).trans ?_
  simp [vector, twoRows]

theorem entry_twoRows (x y : ℝ) :
    (toDense (twoRows x y)).entry 0 0 = real x ∧ (toDense (twoRows x y)).entry 1 0 = real y := by
  rw [readsMatrix_toDense (twoRows x y) 0 0, readsMatrix_toDense (twoRows x y) 1 0]
  exact ⟨rfl, rfl⟩

theorem ofColumns_twoRows (x y : ℝ) :
    DenseMatrix.ofColumns 2 1 [[real x, real y]] = toDense (twoRows x y) := by
  rw [← column_twoRows]
  exact ofColumns_column (toDense (twoRows x y))

/-- A length that is known by its square. -/
theorem scaledLength_of_sq {k : Nat} (x : Fin k → ℝ) {y : ℝ} (hy : 0 ≤ y) (h : x ⬝ᵥ x = y ^ 2) :
    scaledLength (vector x) = real y := by
  rw [scaledLength_vector, h, Real.sqrt_sq hy]

/-- The reflection that turns three and four into minus five and zero. -/
theorem clearing_three_four : Reflection.clearing 0 (real 3) [real 4] =
    ⟨⟨0, [real (1 / 2)], real (8 / 5)⟩, real (-5)⟩ := by
  have htail : scaledLength [real 4] = real 4 := by
    have h := scaledLength_of_sq ![4] (y := 4) (by norm_num) (by norm_num [dotProduct])
    simpa [vector] using h
  have hlength : scaledLength [real 3, real 4] = real 5 := by
    have h := scaledLength_of_sq ![3, 4] (y := 5) (by norm_num)
      (by norm_num [dotProduct, Fin.sum_univ_two])
    simpa [vector] using h
  have hnormal (x : ℝ) (hx : 1 ≤ x) : Scalar.lt (real x) Scalar.minNormal = false := by
    have hsmall : (2 : ℝ) ^ (-1022 : ℤ) ≤ 1 := zpow_le_one_of_nonpos₀ one_le_two (by norm_num)
    exact decide_eq_false (not_lt.mpr (hsmall.trans hx))
  have hthree := hnormal 3 (by norm_num)
  have hfour := hnormal 4 (by norm_num)
  simp [Reflection.clearing, htail, hlength, negligible, hthree, hfour, real_div, Scalar.half]
  norm_num [real_div]

theorem qr_three_four : Kernels.qr (toDense (twoRows 3 4)) =
    ⟨[⟨0, [real (1 / 2)], real (8 / 5)⟩], toDense (twoRows (-5) 0)⟩ := by
  show QrFactors.step ⟨[], toDense (twoRows 3 4)⟩ 0 = _
  simp [QrFactors.step, column_twoRows, clearing_three_four, ofColumns_twoRows]

theorem rotate_three_four (r : DenseMatrix Exact) (c : Fin 2 → ℝ) :
    QrFactors.rotate ⟨[⟨0, [real (1 / 2)], real (8 / 5)⟩], r⟩ (vector c) =
      vector (!![-3 / 5, -4 / 5; -4 / 5, 3 / 5]ᵀ *ᵥ c) := by
  simp only [QrFactors.rotate, List.foldl_cons, List.foldl_nil, vector_succ]
  simp [Reflection.apply, Reflection.applyFrom, vector, Scalar.sumFromZero, mulVec, dotProduct,
    Fin.sum_univ_two]
  constructor <;> ring

theorem svd_three_four : Kernels.svd (toDense (twoRows 3 4)) =
    some ⟨toDense (twoRows (3 / 5) (4 / 5)), toDense !![1], [real 5]⟩ := by
  have hlargest : largestMagnitude [real 3, real 4] = real 4 := by
    simp only [largestMagnitude, List.foldl_cons, List.foldl_nil, abs_real, zero_eq, max_real]
    norm_num
  have hlength : scaledLength [real (3 / 4), real 1] = real (5 / 4) := by
    have h := scaledLength_of_sq ![3 / 4, 1] (y := 5 / 4) (by norm_num)
      (by norm_num [dotProduct, Fin.sum_univ_two])
    simpa [vector] using h
  have hrows : (toDense (twoRows 3 4)).toRows = [[real 3], [real 4]] := by
    simp [DenseMatrix.toRows, DenseMatrix.row, List.range_succ, entry_twoRows]
  have hsweep (column : RotatedColumn Exact) :
      RotatedColumn.sweepAll maxSweeps [column] = [column] := rfl
  have hpositive : Scalar.lt (real 0) (real (5 / 4)) = true := decide_eq_true (by norm_num)
  have htriples : tallTriples (toDense (twoRows 3 4)) =
      [⟨real 5, [real (3 / 5), real (4 / 5)], [real 1]⟩] := by
    simp [tallTriples, hrows, hlargest, column_twoRows, hsweep, RotatedColumn.triple, hlength,
      real_div, hpositive]
    norm_num
  have hone : DenseMatrix.ofColumns 1 1 [[real 1]] = toDense !![1] := by
    simp [DenseMatrix.ofColumns, ofFn_eq_single, toDense_eq_single]
  show some (singularFactors (toDense (twoRows 3 4))) = _
  simp [singularFactors, tallFactors, htriples, ofColumns_twoRows, hone]

/-- The kernels of this library factor the column of a three and a four exactly. -/
theorem exactAt_three_four : Kernels.ExactAt (twoRows 3 4) where
  lu h := absurd h (by decide)
  cholesky h := absurd h (by decide)
  qr _ := by
    rw [qr_three_four]
    refine ⟨⟨!![-3 / 5, -4 / 5; -4 / 5, 3 / 5], twoRows (-5) 0, rotate_three_four _, rfl, ?_, ?_, ?_⟩⟩
    · ext i j
      fin_cases i <;> fin_cases j <;> norm_num [mul_apply, Fin.sum_univ_two]
    · intro i j hji
      fin_cases i <;> fin_cases j <;> first | rfl | exact absurd hji (by decide)
    · ext i j
      fin_cases i <;> fin_cases j <;> norm_num [mul_apply, Fin.sum_univ_two, twoRows]
  svd f hf := by
    rw [svd_three_four] at hf
    cases hf
    have honly (i j : Fin 1) : i = j := Subsingleton.elim i j
    refine ⟨⟨1, 1, le_rfl, le_rfl, twoRows (3 / 5) (4 / 5), !![1], fun _ => 5, rfl, rfl, rfl,
      fun _ => by norm_num, ?_, ?_, ?_⟩⟩
    · intro i j _ _
      rw [honly i j, if_pos rfl]
      norm_num [dotProduct, Fin.sum_univ_two, twoRows]
    · intro i j _ _
      rw [honly i j, if_pos rfl]
      norm_num [dotProduct]
    · ext i j
      fin_cases i <;> fin_cases j <;> norm_num [twoRows, vecMulVec]

theorem solve_qr_column (c : Fin 2 → ℝ) :
    solve .qr (toDense (twoRows 3 4)) (vector c) {} =
      .ok (vector ![(3 * c 0 + 4 * c 1) / 25]) := by
  have hadmits : Factorization.qr.Admits 2 1 := Nat.le_succ 1
  have hrotated : !![-3 / 5, -4 / 5; -4 / 5, 3 / 5]ᵀ *ᵥ c =
      ![-(3 * c 0 + 4 * c 1) / 5, (3 * c 1 - 4 * c 0) / 5] := by
    ext i
    fin_cases i <;> simp [mulVec, dotProduct, Fin.sum_univ_two] <;> ring
  have hquotient : -(3 * c 0 + 4 * c 1) / 5 / -5 = (3 * c 0 + 4 * c 1) / 25 := by ring
  have hsolve : (Kernels.qr (toDense (twoRows 3 4))).solve (vector c) =
      [real ((3 * c 0 + 4 * c 1) / 25)] := by
    rw [qr_three_four, QrFactors.solve, rotate_three_four, hrotated, ← hquotient]
    simp [backwardSubstitution, forwardSubstitution, substitutionFrom, blockSubstitution, blockEntry,
      reversed, DenseMatrix.entry_ofFn, entry_twoRows, vector, DenseMatrix.row]
    norm_num [real_div, Scalar.products]
    ring
  refine solve_of_verdict ((Strategy.verdict_toDense one_ne_zero rfl hadmits).trans ?_)
  refine Factorization.answer_eq_ok.mpr ⟨_, rfl, ?_, rfl⟩
  show _ = [((Kernels.qr (toDense (twoRows 3 4))).column 1 (vector c)).getD 0 0]
  rw [QrFactors.column, hsolve]
  rfl

theorem solve_qr_three_four :
    solve .qr (toDense (twoRows 3 4)) (vector ![1, 2]) {} = .ok (vector ![11 / 25]) := by
  rw [solve_qr_column]
  norm_num

theorem cutoff_three_four :
    rankTolerance (largestOf [real 5]) (Nat.max 2 1) = real (5 * 2 * 2 ^ (-52 : ℤ)) := by
  have hlargest : largestOf [real 5] = real 5 := by
    simp only [largestOf, List.foldl_cons, List.foldl_nil, zero_eq, max_real]
    norm_num
  rw [hlargest]
  rfl

theorem suits_three_four : Strategy.svd.Suits (twoRows 3 4) {} := by
  intro kind hkind
  cases hkind
  intro f hf
  rw [svd_three_four] at hf
  cases hf
  intro s hs
  rw [List.mem_singleton.mp hs, cutoff_three_four]
  rintro ⟨-, hle⟩
  have hle : (5 : ℝ) ≤ 5 * 2 * 2 ^ (-52 : ℤ) := of_decide_eq_true hle
  norm_num at hle

theorem solve_svd_three_four :
    solve .svd (toDense (twoRows 3 4)) (vector ![1, 2]) {} = .ok (vector ![11 / 25]) := by
  have hadmits : Factorization.svd.Admits 2 1 := trivial
  have hshares : (toDense (twoRows (3 / 5) (4 / 5))).transpose.mulVec (vector ![1, 2]) =
      [real (11 / 5)] := by
    rw [toDense_transpose, mulVec_toDense]
    norm_num [vector, mulVec, dotProduct, Fin.sum_univ_two, twoRows]
  have hsolve : SvdFactors.solve ⟨toDense (twoRows (3 / 5) (4 / 5)), toDense !![1], [real 5]⟩ 2 1
      (vector ![1, 2]) = [real (11 / 25)] := by
    rw [SvdFactors.solve, SvdFactors.weights]
    have htake : (vector ![1, 2]).take 2 = vector ![1, 2] := rfl
    simp only [htake, hshares, cutoff_three_four]
    simp [toDense_eq_single, real_div, DenseMatrix.mulVec, DenseMatrix.toRows, DenseMatrix.row,
      Scalar.sumFromZero]
    norm_num
  refine solve_of_verdict ((Strategy.verdict_toDense one_ne_zero rfl hadmits).trans ?_)
  refine Factorization.answer_eq_ok.mpr
    ⟨⟨2, 1, .svd ⟨toDense (twoRows (3 / 5) (4 / 5)), toDense !![1], [real 5]⟩⟩, ?_, ?_, rfl⟩
  · rw [Factorization.decompose, svd_three_four]
    rfl
  · show _ = [(SvdFactors.solve ⟨_, _, _⟩ 2 1 (vector ![1, 2])).getD 0 0]
    rw [hsolve]
    rfl

end Column

/-- **Dense solves in exact arithmetic.** By kernels that factor the matrix exactly, every answer
solves the normal equations, and the system itself if the matrix has full row rank, as a nonsingular
square one has. It is a least-squares solution, and every other one is longer. So two solves that both
answer answer the same, whatever their strategies and tags. -/
theorem solve_isShortestSolution [Kernels Exact] [Kernels.LawfulSvd Exact]
    (hexact : Kernels.ExactAt A) (b : Fin m → ℝ) :
    (∀ (strategy : Strategy) (tags : Tags) (xs : List Exact), strategy.Suits A tags →
      solve strategy (toDense A) (vector b) tags = .ok xs →
        ∃ x, xs = vector x ∧ Aᵀ *ᵥ (A *ᵥ x - b) = 0 ∧ (A.rank = m → A *ᵥ x = b) ∧
          IsLeastSquares A b x ∧ ∀ z, IsLeastSquares A b z → z ≠ x → x ⬝ᵥ x < z ⬝ᵥ z) ∧
    ∀ (strategy strategy' : Strategy) (tags tags' : Tags) (xs xs' : List Exact),
      strategy.Suits A tags → strategy'.Suits A tags' →
        solve strategy (toDense A) (vector b) tags = .ok xs →
          solve strategy' (toDense A) (vector b) tags' = .ok xs' → xs = xs' := by
  constructor
  · intro strategy tags xs hsuits h
    obtain ⟨x, hxs, hx⟩ := exists_of_solve hexact hsuits h
    have hbest : IsLeastSquares A b x := isLeastSquares_of_normal hx.normal
    exact ⟨x, hxs, hx.normal, hx.mulVec_eq, hbest, fun z hz hne => hx.lt hz hne⟩
  · intro strategy strategy' tags tags' xs xs' hsuits hsuits' h h'
    obtain ⟨x, rfl, hx⟩ := exists_of_solve hexact hsuits h
    obtain ⟨x', rfl, hx'⟩ := exists_of_solve hexact hsuits' h'
    rw [hx.eq hx']

/-- Three and four times an unknown are to be one and two. The orthogonal factors answer eleven
twenty-fifths, which solves the normal equations though not the system, and the singular values answer
the same. -/
theorem solve_isShortestSolution_three_four :
    let A : Matrix (Fin 2) (Fin 1) ℝ := twoRows 3 4
    Kernels.ExactAt A ∧ Strategy.qr.Suits A {} ∧ Strategy.svd.Suits A {} ∧
      solve .qr (toDense A) (vector ![1, 2]) {} = .ok (vector ![11 / 25]) ∧
      Aᵀ *ᵥ (A *ᵥ ![11 / 25] - ![1, 2]) = 0 ∧
      ∃ xs, solve .svd (toDense A) (vector ![1, 2]) {} = .ok xs ∧ xs = vector ![11 / 25] := by
  intro A
  have hqr : Strategy.qr.Suits A {} := fun kind hkind => by
    cases hkind
    trivial
  obtain ⟨hanswers, hagree⟩ := solve_isShortestSolution exactAt_three_four ![1, 2]
  refine ⟨exactAt_three_four, hqr, suits_three_four, solve_qr_three_four, ?_, ?_⟩
  · obtain ⟨x, hx, hnormal, -⟩ := hanswers .qr {} _ hqr solve_qr_three_four
    rw [vector_injective hx]
    exact hnormal
  · refine ⟨_, solve_svd_three_four, ?_⟩
    exact hagree .svd .qr {} {} _ _ suits_three_four hqr solve_svd_three_four solve_qr_three_four

end Dense

end LeastSquares
