import LeastSquares.Proofs.Dense.Memory

/-!
# Right-hand sides solved together

A solver object takes a matrix of right-hand sides and works on its columns. Triangular and orthogonal
factors treat the columns alike: a column of the solutions depends on that column of the right-hand
sides alone. But only the first column is looked at to tell whether the solutions are finite, and the
solve by singular values has room for a single column and faults on more. So solving together agrees
with solving one by one exactly if there is no second column for singular values, and if no column is
refused unless the first one is (`solvesColumnwise_iff`).
-/

namespace LeastSquares.Dense

variable {α : Type} [Scalar α]

/-- A column of a matrix as a matrix of its own. -/
def onlyColumn (b : DenseMatrix α) (j : Nat) : DenseMatrix α := .ofFn b.nrows 1 fun i _ => b.entry i j

section Columns

variable {b : DenseMatrix α} {j : Nat}

@[simp] theorem ncols_onlyColumn (b : DenseMatrix α) (j : Nat) : (onlyColumn b j).ncols = 1 := rfl

@[simp] theorem ncols_mapColumns (f : List α → List α) (b : DenseMatrix α) :
    (mapColumns f b).ncols = b.ncols := rfl

theorem column_onlyColumn (b : DenseMatrix α) (j : Nat) :
    (onlyColumn b j).column 0 = b.column j := by
  refine List.map_congr_left fun i hi => ?_
  exact DenseMatrix.entry_ofFn _ _ _ (List.mem_range.mp hi) Nat.one_pos

/-- A column of the images is the image of the column, with zeros in the rows that it leaves over. -/
theorem column_mapColumns (f : List α → List α) (hj : j < b.ncols) :
    (mapColumns f b).column j = (List.range b.nrows).map fun i => (f (b.column j)).getD i 0 := by
  refine List.map_congr_left fun i hi => ?_
  have hi : i < b.nrows := List.mem_range.mp hi
  rw [mapColumns, DenseMatrix.entry_ofColumns _ hi hj]
  simp [hj]

/-- So it is the only column of the images of that column alone. -/
theorem column_mapColumns_onlyColumn (f : List α → List α) (hj : j < b.ncols) :
    (mapColumns f (onlyColumn b j)).column 0 = (mapColumns f b).column j := by
  rw [column_mapColumns f hj, column_mapColumns f Nat.one_pos, column_onlyColumn]
  rfl

end Columns

section Together

variable {kind : Factorization}

/-- Solutions pass if the first entries of their first column are finite. Other columns are not looked
at. -/
theorem requireSolution_eq_ok {x y : DenseMatrix α} {n : Nat} :
    requireSolution x n = .ok y ↔
      x.ncols ≠ 0 ∧ ((x.column 0).take n).all Scalar.isFinite = true ∧ x = y := by
  unfold requireSolution
  split
  · simp_all
  · split <;> simp_all

/-- Solutions with a first column are no fault. -/
theorem requireSolution_faultless {x : DenseMatrix α} (hcols : x.ncols ≠ 0) (n : Nat)
    (fault : Fault) : requireSolution x n ≠ .error (.broken fault) := by
  rw [requireSolution, if_neg hcols]
  split <;> simp

/-- What factors make of one right-hand side. -/
def Factored.image (a : Factored α kind) : List α → List α :=
  match a.factors with
  | .lu f => f.solve
  | .qr f => f.column a.ncols
  | .cholesky lower => choleskySolve lower
  | .svd f => f.solve a.nrows a.ncols

variable {a : Factored α kind} {b : DenseMatrix α}

/-- A solve with room for the right-hand sides maps their columns and looks at the first one. -/
theorem Factored.solve_eq (hadmits : kind.Admits a.nrows a.ncols)
    (hrows : b.nrows = Nat.max a.nrows a.ncols) (hroom : kind = .svd → b.ncols = 1) :
    a.solve b = requireSolution (mapColumns a.image b) a.ncols := by
  obtain ⟨nrows, ncols, factors⟩ := a
  have hleft : nrows ≤ b.nrows := hrows ▸ Nat.le_max_left ..
  have hright : ncols ≤ b.nrows := hrows ▸ Nat.le_max_right ..
  cases factors with
  | lu f =>
      obtain rfl : nrows = ncols := hadmits
      have hsquare : b.nrows = nrows := hrows.trans (Nat.max_self nrows)
      simp [Factored.solve, image, hsquare]
  | qr f =>
      have htall : b.nrows = nrows := hrows.trans (Nat.max_eq_left hadmits)
      simp [Factored.solve, image, htall]
  | cholesky lower =>
      obtain rfl : nrows = ncols := hadmits
      have hsquare : b.nrows = nrows := hrows.trans (Nat.max_self nrows)
      simp [Factored.solve, image, hsquare]
  | svd f =>
      simp [Factored.solve, image, hroom rfl, Nat.not_lt.mpr hleft, Nat.not_lt.mpr hright]

/-- Singular values fault on a second column. -/
theorem Factored.solve_svd_of_columns {a : Factored α .svd}
    (hrows : b.nrows = Nat.max a.nrows a.ncols) (hcols : 1 < b.ncols) :
    a.solve b = .error (.broken (.dimension 1 b.ncols)) := by
  obtain ⟨nrows, ncols, factors⟩ := a
  have hleft : nrows ≤ b.nrows := hrows ▸ Nat.le_max_left ..
  have hright : ncols ≤ b.nrows := hrows ▸ Nat.le_max_right ..
  cases factors
  simp [Factored.solve, Nat.not_lt.mpr hleft, Nat.not_lt.mpr hright, Nat.ne_of_gt hcols,
    Nat.ne_of_gt (Nat.lt_trans Nat.one_pos hcols)]

end Together

/-- Kernels whose singular value decompositions have left directions as long as the columns of the
matrix and right directions as long as its rows. -/
class Kernels.LawfulSvd (α : Type) [Kernels α] : Prop where
  nrows_u {a : DenseMatrix α} {f : SvdFactors α} : Kernels.svd a = some f → f.u.nrows = a.nrows
  nrows_v {a : DenseMatrix α} {f : SvdFactors α} : Kernels.svd a = some f → f.v.nrows = a.ncols

/-- The kernels of this library do. -/
theorem standardKernels_lawfulSvd : @Kernels.LawfulSvd α standardKernels := by
  let _ : Kernels α := standardKernels
  constructor
  · rintro a f hf
    cases hf
    unfold singularFactors
    split <;> rfl
  · rintro a f hf
    cases hf
    unfold singularFactors
    split <;> rfl

section Objects

variable [Kernels α] {kind : Factorization} {a b : DenseMatrix α}

/-- The factors of a matrix are those that the kernel of their kind gives. -/
inductive FactorsOf (a : DenseMatrix α) : {kind : Factorization} → Factored α kind → Prop
  | lu : FactorsOf a ((Factors.lu (Kernels.lu a)).of a)
  | qr : FactorsOf a ((Factors.qr (Kernels.qr a)).of a)
  | cholesky (lower : DenseMatrix α) (h : Kernels.cholesky a = some lower) :
      FactorsOf a ((Factors.cholesky lower).of a)
  | svd (f : SvdFactors α) (h : Kernels.svd a = some f) :
      FactorsOf a ⟨f.u.nrows, f.v.nrows, .svd f⟩

theorem factorsOf_of_factor {factored : Factored α kind} (h : factor kind a = .ok factored) :
    FactorsOf a factored := by
  cases kind with
  | lu =>
      obtain ⟨_, -, h⟩ := Outcome.bind_eq_ok.mp h
      obtain ⟨_, -, h⟩ := Outcome.bind_eq_ok.mp h
      dsimp only at h
      split at h <;> cases h
      exact .lu
  | cholesky =>
      obtain ⟨_, -, h⟩ := Outcome.bind_eq_ok.mp h
      obtain ⟨_, -, h⟩ := Outcome.bind_eq_ok.mp h
      split at h
      · cases h
      · rename_i lower hlower
        cases h
        exact .cholesky lower hlower
  | qr =>
      simp only [factor] at h
      split at h
      · cases h
      · obtain ⟨_, -, h⟩ := Outcome.bind_eq_ok.mp h
        cases h
        exact .qr
  | svd =>
      obtain ⟨_, -, h⟩ := Outcome.bind_eq_ok.mp h
      split at h
      · cases h
      · rename_i f hf
        cases h
        exact .svd f hf

omit [Scalar α] in
/-- Factors know the dimensions of their matrix. -/
theorem FactorsOf.dims [Kernels.LawfulSvd α] {factored : Factored α kind}
    (h : FactorsOf a factored) : factored.nrows = a.nrows ∧ factored.ncols = a.ncols := by
  cases h with
  | lu => exact ⟨rfl, rfl⟩
  | qr => exact ⟨rfl, rfl⟩
  | cholesky lower h => exact ⟨rfl, rfl⟩
  | svd f h => exact ⟨Kernels.LawfulSvd.nrows_u h, Kernels.LawfulSvd.nrows_v h⟩

omit [Scalar α] in
/-- A solver that keeps the factors of a matrix holds them. -/
theorem FactorsOf.held_ofFactored {factored : Factored α kind} (h : FactorsOf a factored) :
    (Solver.ofFactored factored).held = some factored := by
  cases h <;> rfl

namespace Solver

/-- A solver solves for many right-hand sides together as it does for each of them alone: without a
fault, refusing if one of them is refused, and with the same first entries of the solutions. -/
structure SolvesColumnwise (solver : Solver α kind) (n : Nat) (b : DenseMatrix α) : Prop where
  faultless : ∀ fault, solver.solve b ≠ .error (.broken fault)
  answers : (∃ x, solver.solve b = .ok x) ↔
    ∀ j < b.ncols, ∃ x, solver.solve (onlyColumn b j) = .ok x
  columns : ∀ x, solver.solve b = .ok x → ∀ j < b.ncols, ∀ alone,
    solver.solve (onlyColumn b j) = .ok alone → (x.column j).take n = (alone.column 0).take n

/-- After a success the solver solves with factors of the matrix. -/
theorem solve_of_factored [Kernels.LawfulSvd α] {solver : Solver α kind}
    (h : (solver.factor a).2 = .ok ()) :
    ∃ factored : Factored α kind, kind.Admits factored.nrows factored.ncols ∧
      factored.nrows = a.nrows ∧ factored.ncols = a.ncols ∧
      ∀ b, (solver.factor a).1.solve b = factored.solve b := by
  cases hfactor : Dense.factor kind a with
  | error report =>
      rw [factor_of_error _ hfactor] at h
      cases h
  | ok factored =>
      have hof := factorsOf_of_factor hfactor
      obtain ⟨hnrows, hncols⟩ := hof.dims
      refine ⟨factored, ?_, hnrows, hncols, fun b => ?_⟩
      · rw [hnrows, hncols]
        exact admits_of_factor hfactor
      · rw [factor_of_ok _ hfactor, solve, hof.held_ofFactored]

/-- Where there is room for the right-hand sides, a solve does not fault, and it is refused exactly if
the first column is; the columns of its answer are the answers for the columns. -/
theorem solve_together [Kernels.LawfulSvd α] {solver : Solver α kind}
    (hfactor : (solver.factor a).2 = .ok ()) (hrows : b.nrows = Nat.max a.nrows a.ncols)
    (hcols : 0 < b.ncols) (hroom : kind = .svd → b.ncols = 1) :
    (∀ fault, (solver.factor a).1.solve b ≠ .error (.broken fault)) ∧
      ((∃ x, (solver.factor a).1.solve b = .ok x) ↔
        ∃ x, (solver.factor a).1.solve (onlyColumn b 0) = .ok x) ∧
      ∀ x, (solver.factor a).1.solve b = .ok x → ∀ j < b.ncols, ∀ alone,
        (solver.factor a).1.solve (onlyColumn b j) = .ok alone →
          (x.column j).take a.ncols = (alone.column 0).take a.ncols := by
  obtain ⟨factored, hadmits, hnrows, hncols, hsolve⟩ := solve_of_factored hfactor
  rw [← hnrows, ← hncols] at hrows
  have htogether : (solver.factor a).1.solve b =
      requireSolution (mapColumns factored.image b) factored.ncols :=
    (hsolve b).trans (factored.solve_eq hadmits hrows hroom)
  have halone (j : Nat) : (solver.factor a).1.solve (onlyColumn b j) =
      requireSolution (mapColumns factored.image (onlyColumn b j)) factored.ncols :=
    (hsolve _).trans (factored.solve_eq hadmits hrows fun _ => rfl)
  refine ⟨fun fault => ?faultless, ?answers, ?columns⟩
  case faultless =>
    have hsome : (mapColumns factored.image b).ncols ≠ 0 := Nat.ne_of_gt hcols
    rw [htogether]
    exact requireSolution_faultless hsome _ fault
  case answers =>
    simp only [htogether, halone, requireSolution_eq_ok, column_mapColumns_onlyColumn _ hcols]
    simp [Nat.ne_of_gt hcols]
  case columns =>
    intro x hx j hj alone halone'
    rw [htogether, requireSolution_eq_ok] at hx
    rw [halone, requireSolution_eq_ok] at halone'
    rw [← hx.2.2, ← halone'.2.2, column_mapColumns_onlyColumn _ hj]

/-- Singular values leave no room for a second right-hand side. -/
theorem solve_svd_of_columns [Kernels.LawfulSvd α] {solver : Solver α .svd}
    (hfactor : (solver.factor a).2 = .ok ()) (hrows : b.nrows = Nat.max a.nrows a.ncols)
    (hcols : 1 < b.ncols) :
    (solver.factor a).1.solve b = .error (.broken (.dimension 1 b.ncols)) := by
  obtain ⟨factored, -, hnrows, hncols, hsolve⟩ := solve_of_factored hfactor
  rw [hsolve]
  exact Factored.solve_svd_of_columns (by rw [hnrows, hncols, hrows]) hcols

/-- **Solving together and one by one.** After a matrix was factored with success, a solve for the
columns of a matrix with as many rows as its longer side agrees with the solves for each column alone
exactly if singular values are given a single column, and if every column is answered alone as soon as
the first one is. Nothing else can go wrong: but for a second column for singular values there is no
fault, and where a column is answered together and alone the answers are the same. -/
theorem solvesColumnwise_iff [Kernels.LawfulSvd α] (solver : Solver α kind)
    (hfactor : (solver.factor a).2 = .ok ()) (hrows : b.nrows = Nat.max a.nrows a.ncols)
    (hcols : 0 < b.ncols) :
    (solver.factor a).1.SolvesColumnwise a.ncols b ↔
      (kind = .svd → b.ncols = 1) ∧
        ((∃ x, (solver.factor a).1.solve (onlyColumn b 0) = .ok x) →
          ∀ j < b.ncols, ∃ x, (solver.factor a).1.solve (onlyColumn b j) = .ok x) := by
  constructor
  · intro h
    -- Without room there is a fault, whatever the columns are.
    have hroom : kind = .svd → b.ncols = 1 := by
      rintro rfl
      by_contra hmany
      have hfault := solve_svd_of_columns hfactor hrows (by omega)
      exact h.faultless _ hfault
    obtain ⟨-, hfirst, -⟩ := solve_together hfactor hrows hcols hroom
    exact ⟨hroom, fun hanswer => h.answers.mp (hfirst.mpr hanswer)⟩
  · rintro ⟨hroom, hall⟩
    obtain ⟨hfaultless, hfirst, hcolumns⟩ := solve_together hfactor hrows hcols hroom
    refine ⟨hfaultless, ⟨fun hanswer => hall (hfirst.mp hanswer), fun hanswers => ?_⟩, hcolumns⟩
    exact hfirst.mpr (hanswers 0 hcols)

end Solver

end Objects

section SingleUnknown

open Exact

instance : Kernels.LawfulSvd Exact := standardKernels_lawfulSvd

/-- A row of two right-hand sides for one unknown. -/
def pair (x y : Exact) : DenseMatrix Exact := .ofFn 1 2 fun _ j => if j = 0 then x else y

theorem onlyColumn_pair_zero (x y : Exact) : onlyColumn (pair x y) 0 = single x := by
  refine (ofFn_eq_single _).trans (congrArg single ?_)
  exact DenseMatrix.entry_ofFn 1 2 _ Nat.one_pos Nat.two_pos

theorem onlyColumn_pair_one (x y : Exact) : onlyColumn (pair x y) 1 = single y := by
  refine (ofFn_eq_single _).trans (congrArg single ?_)
  exact DenseMatrix.entry_ofFn 1 2 _ Nat.one_pos Nat.one_lt_two

/-- A right-hand side that is no number is refused when it is alone. -/
theorem factoredSolve_single_nan (a : ℝ) (x : DenseMatrix Exact) :
    ((Factors.lu ⟨single (real 1), single (real a), [0], [0]⟩).of (single (real a))).solve
      (single nan) ≠ .ok x := by
  have hsolve : (⟨single (real 1), single (real a), [0], [0]⟩ : LuFactors Exact).solve [nan] =
      [nan] := by
    simp [LuFactors.solve, forwardSubstitution, backwardSubstitution, substitutionFrom,
      blockSubstitution, blockEntry, reversed, ofFn_eq_single, DenseMatrix.row, Scalar.products,
      List.range_succ]
  have hcolumns : mapColumns (LuFactors.solve ⟨single (real 1), single (real a), [0], [0]⟩)
      (single nan) = single nan := by
    simp [mapColumns, column_single, hsolve, DenseMatrix.ofColumns, ofFn_eq_single]
  simp [Factored.solve, Factors.of, hcolumns, requireSolution, column_single]

namespace Solver

/-- Two right-hand sides of which the second one is no number are solved together although the second
one is refused alone; and singular values fault on two right-hand sides. -/
theorem solvesColumnwise_pair :
    ¬((fresh : Solver Exact .lu).factor (single (real 2))).1.SolvesColumnwise 1 (pair (real 6) nan) ∧
      ¬((fresh : Solver Exact .svd).factor (single (real 2))).1.SolvesColumnwise 1
        (pair (real 6) (real 4)) := by
  constructor
  · have htwo : Dense.factor .lu (single (real 2)) = .ok _ :=
      (factor_single 2).trans (if_neg two_ne_zero)
    have hfactor : ((fresh : Solver Exact .lu).factor (single (real 2))).2 = .ok () := by
      rw [factor_of_ok _ htwo]
    intro hcolumnwise
    obtain ⟨-, hall⟩ := (solvesColumnwise_iff fresh hfactor rfl Nat.two_pos).mp hcolumnwise
    rw [factor_of_ok _ htwo, onlyColumn_pair_zero] at hall
    obtain ⟨x, hx⟩ := hall ⟨_, factoredSolve_single two_ne_zero 6⟩ 1 Nat.one_lt_two
    rw [onlyColumn_pair_one] at hx
    exact factoredSolve_single_nan 2 x hx
  · have hfactor : ((fresh : Solver Exact .svd).factor (single (real 2))).2 = .ok () := by
      simp [factor, Dense.factor, requireFinite, allFinite_single, Kernels.svd]
    intro hcolumnwise
    obtain ⟨hroom, -⟩ := (solvesColumnwise_iff fresh hfactor rfl Nat.two_pos).mp hcolumnwise
    exact absurd (hroom rfl) (by decide)

end Solver

end SingleUnknown

end LeastSquares.Dense
