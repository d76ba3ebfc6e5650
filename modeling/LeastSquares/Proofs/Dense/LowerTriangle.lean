import LeastSquares.Proofs.Dense.Verdict

/-!
# The triangle above the diagonal

The symmetric factorization reads a matrix on and below its diagonal and takes the entries above to be
their mirror images. So matrices that agree there have the same factor, or none of them has one, and a
solve makes the same of them (`solve_cholesky_ignores_upper`): a matrix that is not symmetric is
solved as the symmetric one with its lower triangle, and nothing tells (`solve_cholesky_mirrored`).
Only the test for finite entries comes first, and it looks at all of them.

That a kernel reads nothing else is an assumption about it, which the kernels of this library meet.
-/

namespace LeastSquares

/-- Matrices of the same dimensions that agree on and below the diagonal. -/
structure DenseMatrix.SameLower {α : Type} [Zero α] (a a' : DenseMatrix α) : Prop where
  nrows : a.nrows = a'.nrows
  ncols : a.ncols = a'.ncols
  entry : ∀ i j, j ≤ i → a.entry i j = a'.entry i j

namespace Dense

variable {α : Type} [Scalar α] {a a' : DenseMatrix α}

section Factor

/-- Up to the diagonal, rows of matrices with the same lower triangle are the same. -/
theorem take_row_of_sameLower (h : a.SameLower a') (i : Nat) :
    (a.row i).take (i + 1) = (a'.row i).take (i + 1) := by
  rw [DenseMatrix.row, DenseMatrix.row, ← List.map_take, ← List.map_take, h.ncols]
  refine List.map_congr_left fun j hj => h.entry i j ?_
  rw [List.take_range] at hj
  have hlt := List.mem_range.mp hj
  omega

theorem choleskyStep?_of_sameLower (h : a.SameLower a') (above : List (List α)) :
    choleskyStep? a above = choleskyStep? a' above := by
  simp only [choleskyStep?, take_row_of_sameLower h]

/-- The rows of the factor are the same. The induction is on how many there are. -/
theorem choleskyRows?_of_sameLower (h : a.SameLower a') (n : Nat) :
    choleskyRows? a n = choleskyRows? a' n := by
  induction n with
  | zero => rfl
  | succ n ih =>
      have hstep : choleskyStep? a = choleskyStep? a' := by
        funext above
        exact choleskyStep?_of_sameLower h above
      rw [choleskyRows?, choleskyRows?, ih, hstep]

theorem choleskyFactor?_of_sameLower (h : a.SameLower a') :
    choleskyFactor? a = choleskyFactor? a' := by
  rw [choleskyFactor?, choleskyFactor?, choleskyRows?_of_sameLower h, h.nrows]

/-- Kernels whose symmetric factorization reads a matrix on and below its diagonal only. -/
class Kernels.LawfulCholesky (α : Type) [Scalar α] [Kernels α] : Prop where
  cholesky_congr {a a' : DenseMatrix α} : a.SameLower a' → Kernels.cholesky a = Kernels.cholesky a'

theorem standardKernels_lawfulCholesky : @Kernels.LawfulCholesky α _ standardKernels :=
  @Kernels.LawfulCholesky.mk α _ standardKernels choleskyFactor?_of_sameLower

instance : Kernels.LawfulCholesky Exact := standardKernels_lawfulCholesky

instance : Kernels.LawfulCholesky Float := standardKernels_lawfulCholesky

instance : Kernels.LawfulCholesky Float32 := standardKernels_lawfulCholesky

end Factor

/-- A strategy takes a square matrix to the symmetric factorization: it is asked for, or it is chosen
automatically for the tags. -/
def Strategy.ChoosesCholesky (strategy : Strategy) (tags : Tags) : Prop :=
  strategy = .cholesky ∨
    (strategy = .auto none ∨ strategy = .auto (some true)) ∧
      tags.symmetric = true ∧ tags.positiveSemidefinite = true

/-- No other strategy does. -/
theorem Strategy.choosesCholesky_iff (strategy : Strategy) (tags : Tags) (n : Nat) :
    strategy.ChoosesCholesky tags ↔ strategy.factorization n n tags = .ok .cholesky := by
  obtain ⟨symmetric, semidefinite⟩ := tags
  cases strategy with
  | lu | qr | cholesky | svd => simp [ChoosesCholesky, factorization]
  | auto wellPosed =>
      rcases wellPosed with _ | _ | _ <;> cases symmetric <;> cases semidefinite <;>
        simp [ChoosesCholesky, factorization]

/-- The ends of a solve by the symmetric factorization: an answer, or a matrix that is not positive
definite or turns out to be singular. -/
def CholeskyEnds {β : Type} (outcome : Outcome Report β) : Prop :=
  (∃ x, outcome = .ok x) ∨
    ∃ report, outcome = Outcome.report report ∧
      (report.cause = .notPositiveDefinite ∨ report.cause = .singular)

/-- Notes do not change how a solve ends. -/
theorem CholeskyEnds.note {β γ : Type} {solved : Outcome Report β} (h : CholeskyEnds solved)
    (note : Note) (f : β → γ) :
    CholeskyEnds ((solved.mapReport fun report => report.attach note).map f) := by
  obtain ⟨x, rfl⟩ | ⟨report, rfl, hcause⟩ := h
  · exact .inl ⟨f x, rfl⟩
  · exact .inr ⟨report.attach note, rfl, hcause⟩

section Solving

variable [Kernels α] {strategy : Strategy} {tags : Tags} {b : List α}

/-- The symmetric factorization of a square matrix of finite entries. -/
theorem factor_cholesky (hsquare : a.nrows = a.ncols) (hfinite : a.allFinite = true) :
    factor .cholesky a =
      match Kernels.cholesky a with
      | none => .error ⟨.notPositiveDefinite, [.pivotNotPositive]⟩
      | some lower => .ok ((Factors.cholesky lower).of a) := by
  have hshape : requireSquare .cholesky a = .ok () := if_pos hsquare
  have hentries : requireFinite a = .ok () := if_pos hfinite
  rw [factor, hshape, hentries]
  rfl

theorem solveBy_cholesky_of_sameLower [Kernels.LawfulCholesky α] (hsquare : a.nrows = a.ncols)
    (h : a.SameLower a') (hfinite : a.allFinite = true) (hfinite' : a'.allFinite = true)
    (rhs : DenseMatrix α) : solveBy .cholesky a rhs = solveBy .cholesky a' rhs := by
  have hsquare' : a'.nrows = a'.ncols := by rw [← h.nrows, ← h.ncols, hsquare]
  have hfactor : factor .cholesky a = factor .cholesky a' := by
    rw [factor_cholesky hsquare hfinite, factor_cholesky hsquare' hfinite',
      Kernels.LawfulCholesky.cholesky_congr h]
    simp only [Factors.of, h.nrows, h.ncols]
  rw [solveBy, solveBy, hfactor]

theorem solveBy_cholesky_ends (hsquare : a.nrows = a.ncols) (hfinite : a.allFinite = true)
    {rhs : DenseMatrix α} (hrows : rhs.nrows = a.nrows) (hcols : rhs.ncols ≠ 0) :
    CholeskyEnds (solveBy .cholesky a rhs) := by
  rw [solveBy, factor_cholesky hsquare hfinite]
  cases Kernels.cholesky a with
  | none => exact .inr ⟨_, rfl, .inl rfl⟩
  | some lower =>
      have hcolumns : (mapColumns (choleskySolve lower) rhs).ncols ≠ 0 := hcols
      show CholeskyEnds (if rhs.nrows = a.nrows then
        requireSolution (mapColumns (choleskySolve lower) rhs) rhs.nrows else _)
      rw [if_pos hrows, requireSolution, if_neg hcolumns]
      split
      · exact .inl ⟨_, rfl⟩
      · exact .inr ⟨_, rfl, .inr rfl⟩

/-- A solve of a square system that has unknowns and a finite right-hand side. -/
theorem solve_of_choosesCholesky (hchosen : strategy.ChoosesCholesky tags)
    (hsquare : a.nrows = a.ncols) (hfits : b.length = a.nrows) (hcols : a.ncols ≠ 0)
    (hb : b.all Scalar.isFinite = true) :
    solve strategy a b tags =
      ((solveBy .cholesky a (paddedColumn a.nrows a.ncols b)).mapReport fun report =>
        report.attach (.solving .cholesky a.nrows a.ncols)).map fun x => (x.column 0).take a.ncols := by
  have hkind : strategy.factorization a.nrows a.ncols tags = .ok .cholesky := by
    rw [hsquare]
    exact (strategy.choosesCholesky_iff tags a.ncols).mp hchosen
  simp only [solve, hfits, hcols, hkind, hb, ne_eq, not_true_eq_false, if_false, if_true]

/-- A right-hand side that does not fit or is not finite, and a system without unknowns, are dealt
with before the matrix is read. -/
theorem solve_of_sameLower [Kernels.LawfulCholesky α] (hchosen : strategy.ChoosesCholesky tags)
    (hsquare : a.nrows = a.ncols) (h : a.SameLower a') (hfinite : a.allFinite = true)
    (hfinite' : a'.allFinite = true) : solve strategy a b tags = solve strategy a' b tags := by
  have hkind : strategy.factorization a'.nrows a'.ncols tags = .ok .cholesky := by
    rw [← h.nrows, ← h.ncols, hsquare]
    exact (strategy.choosesCholesky_iff tags a.ncols).mp hchosen
  simp only [solve, h.nrows, h.ncols, hkind,
    solveBy_cholesky_of_sameLower hsquare h hfinite hfinite']

end Solving

/-- **The triangle above the diagonal.** Let a strategy take square matrices to the symmetric
factorization. Two square matrices of finite entries that agree on and below the diagonal are solved
alike, whatever the right-hand side is: by the same solution, or with the same refusal. For a finite
right-hand side that fits, a refusal says that the matrix is not positive definite or that it is
singular. But an entry that is not finite is refused wherever it stands, above the diagonal as well.
-/
theorem solve_cholesky_ignores_upper [Kernels α] [Kernels.LawfulCholesky α] {strategy : Strategy}
    {tags : Tags} (hchosen : strategy.ChoosesCholesky tags) (b : List α) :
    (∀ a a' : DenseMatrix α, a.nrows = a.ncols → a.SameLower a' → a.allFinite = true →
      a'.allFinite = true →
      solve strategy a b tags = solve strategy a' b tags ∧
        (b.length = a.nrows → b.all Scalar.isFinite = true →
          CholeskyEnds (solve strategy a b tags))) ∧
    ∀ a : DenseMatrix α, a.nrows = a.ncols → b.length = a.nrows → b.all Scalar.isFinite = true →
      (∃ i < a.nrows, ∃ j < a.ncols, Scalar.isFinite (a.entry i j) = false) →
      solve strategy a b tags =
        Outcome.report ⟨.nonFiniteInput, [.solving .cholesky a.nrows a.ncols]⟩ := by
  constructor
  · intro a a' hsquare h hfinite hfinite'
    refine ⟨solve_of_sameLower hchosen hsquare h hfinite hfinite', fun hfits hb => ?_⟩
    by_cases hcols : a.ncols = 0
    · rw [solve, if_neg (not_not_intro hfits), if_pos hcols]
      exact .inl ⟨[], rfl⟩
    · have hrows : (paddedColumn a.nrows a.ncols b).nrows = a.nrows := by
        show Nat.max a.nrows a.ncols = a.nrows
        rw [← hsquare]
        exact Nat.max_self _
      rw [solve_of_choosesCholesky hchosen hsquare hfits hcols hb]
      exact (solveBy_cholesky_ends hsquare hfinite hrows Nat.one_ne_zero).note _ _
  · rintro a hsquare hfits hb ⟨i, hi, j, hj, hinfinite⟩
    have hfinite : a.allFinite = false := by
      refine Bool.eq_false_iff.mpr fun hall => ?_
      exact Bool.eq_false_iff.mp hinfinite (allFinite_iff.mp hall i hi j hj)
    have hshape : requireSquare .cholesky a = .ok () := if_pos hsquare
    have hrefused : solveBy .cholesky a (paddedColumn a.nrows a.ncols b) =
        Outcome.report ⟨.nonFiniteInput, []⟩ := by
      simp only [solveBy, factor, hshape, requireFinite, hfinite, Outcome.ok_bind]
      rfl
    rw [solve_of_choosesCholesky hchosen hsquare hfits (by omega) hb, hrefused]
    rfl

/-- A square matrix with the entries below the diagonal mirrored. -/
def mirrored (a : DenseMatrix α) : DenseMatrix α :=
  .ofFn a.nrows a.ncols fun i j => if j ≤ i then a.entry i j else a.entry j i

theorem sameLower_mirrored (hsquare : a.nrows = a.ncols) : a.SameLower (mirrored a) where
  nrows := rfl
  ncols := rfl
  entry i j hji := by
    by_cases hi : i < a.nrows
    · rw [mirrored, DenseMatrix.entry_ofFn _ _ _ hi (by omega), if_pos hji]
    · have hrows : (mirrored a).nrows ≤ i := Nat.le_of_not_lt hi
      rw [DenseMatrix.entry_of_nrows_le _ j hrows, DenseMatrix.entry_of_nrows_le a j hrows]

/-- **A matrix that is not symmetric** is solved as the symmetric matrix with its lower triangle,
without any refusal that this one would not meet as well. -/
theorem solve_cholesky_mirrored [Kernels α] [Kernels.LawfulCholesky α] {strategy : Strategy}
    {tags : Tags} (hchosen : strategy.ChoosesCholesky tags) (hsquare : a.nrows = a.ncols)
    (hfinite : a.allFinite = true) (b : List α) :
    solve strategy a b tags = solve strategy (mirrored a) b tags := by
  refine solve_of_sameLower hchosen hsquare (sameLower_mirrored hsquare) hfinite ?_
  refine allFinite_iff.mpr fun i hi j hj => ?_
  change i < a.nrows at hi
  change j < a.ncols at hj
  rw [mirrored, DenseMatrix.entry_ofFn _ _ _ hi hj]
  split
  · exact allFinite_iff.mp hfinite i hi j hj
  · exact allFinite_iff.mp hfinite j (by omega) i (by omega)

section TwoUnknowns

open Exact

/-- The unit matrix with another entry above the diagonal. -/
def withUpper (x : Exact) : DenseMatrix Exact :=
  .ofFn 2 2 fun i j => if i = j then real 1 else if i = 0 then x else real 0

theorem entry_withUpper (x : Exact) :
    (withUpper x).entry 0 0 = real 1 ∧ (withUpper x).entry 0 1 = x ∧
      (withUpper x).entry 1 0 = real 0 ∧ (withUpper x).entry 1 1 = real 1 := by
  simp [withUpper, DenseMatrix.entry_ofFn]

theorem allFinite_withUpper (x : ℝ) : (withUpper (real x)).allFinite = true := by
  obtain ⟨h00, h01, h10, h11⟩ := entry_withUpper (real x)
  refine allFinite_iff.mpr fun i hi j hj => ?_
  change i < 2 at hi
  change j < 2 at hj
  interval_cases i <;> interval_cases j <;> simp [*]

theorem sameLower_withUpper (x y : Exact) : (withUpper x).SameLower (withUpper y) where
  nrows := rfl
  ncols := rfl
  entry i j hji := by
    by_cases hi : i < 2
    · have hj : j < 2 := by omega
      rw [withUpper, withUpper, DenseMatrix.entry_ofFn _ _ _ hi hj, DenseMatrix.entry_ofFn _ _ _ hi hj]
      by_cases hdiag : i = j
      · rw [if_pos hdiag, if_pos hdiag]
      · have hzero : i ≠ 0 := by omega
        simp [hdiag, hzero]
    · have hrows (z : Exact) : (withUpper z).nrows ≤ i := Nat.le_of_not_lt hi
      rw [DenseMatrix.entry_of_nrows_le _ j (hrows x), DenseMatrix.entry_of_nrows_le _ j (hrows y)]

/-- A seven above the diagonal goes unnoticed under the tags of a symmetric matrix; what is no number
does not. -/
theorem solve_cholesky_ignores_upper_seven :
    solve .standard (withUpper (real 7)) [real 8, real 9] .gramian =
        solve .standard (withUpper (real 0)) [real 8, real 9] .gramian ∧
      CholeskyEnds (solve .standard (withUpper (real 7)) [real 8, real 9] .gramian) ∧
      solve .standard (withUpper nan) [real 8, real 9] .gramian =
        Outcome.report ⟨.nonFiniteInput, [.solving .cholesky 2 2]⟩ := by
  have hchosen : Strategy.standard.ChoosesCholesky .gramian := .inr ⟨.inl rfl, rfl, rfl⟩
  obtain ⟨hsame, hrefused⟩ := solve_cholesky_ignores_upper hchosen [real 8, real 9]
  obtain ⟨hequal, hends⟩ := hsame _ _ rfl (sameLower_withUpper (real 7) (real 0))
    (allFinite_withUpper 7) (allFinite_withUpper 0)
  have hnan : Scalar.isFinite ((withUpper nan).entry 0 1) = false := by
    rw [(entry_withUpper nan).2.1]
    rfl
  exact ⟨hequal, hends rfl rfl,
    hrefused (withUpper nan) rfl rfl rfl ⟨0, Nat.two_pos, 1, Nat.one_lt_two, hnan⟩⟩

end TwoUnknowns

end Dense

end LeastSquares
