import Mathlib.Tactic.NormNum
import LeastSquares.Proofs.Exact.Minimiser

/-!
# Systems with one unknown

The smallest systems, solved by the kernels of this library in exact arithmetic. The triangular
factors of a matrix with one entry are one and the entry, whatever the entry is; the pivot passes the
test for a singular matrix unless it is zero; and the solution is the quotient. So these kernels do
what the theorems on exact runs ask of a solver.
-/

namespace LeastSquares

open Matrix Exact LeastSquares.Dense

noncomputable instance : Kernels Exact := standardKernels

/-- The matrix with one entry. -/
def single {α : Type} (a : α) : DenseMatrix α := .ofFn 1 1 fun _ _ => a

section Single

variable {α : Type}

@[simp] theorem nrows_single (a : α) : (single a).nrows = 1 := rfl

@[simp] theorem ncols_single (a : α) : (single a).ncols = 1 := rfl

variable [Zero α]

@[simp] theorem entry_single (a : α) : (single a).entry 0 0 = a :=
  DenseMatrix.entry_ofFn 1 1 _ Nat.one_pos Nat.one_pos

theorem ofFn_eq_single (f : Nat → Nat → α) : DenseMatrix.ofFn 1 1 f = single (f 0 0) := by
  refine DenseMatrix.ext_entry rfl rfl fun i j hi hj => ?_
  change i < 1 at hi
  change j < 1 at hj
  rw [Nat.lt_one_iff.mp hi, Nat.lt_one_iff.mp hj, entry_single,
    DenseMatrix.entry_ofFn 1 1 f Nat.one_pos Nat.one_pos]

theorem column_single (a : α) : (single a).column 0 = [a] := by
  simp [DenseMatrix.column]

end Single

theorem toDense_eq_single (A : Matrix (Fin 1) (Fin 1) ℝ) : toDense A = single (real (A 0 0)) := by
  unfold toDense
  rw [ofFn_eq_single]
  simp

theorem mulVec_one (A : Matrix (Fin 1) (Fin 1) ℝ) (x : Fin 1 → ℝ) :
    A *ᵥ x = fun _ => A 0 0 * x 0 := by
  funext i
  rw [Fin.fin_one_eq_zero i]
  simp [mulVec, dotProduct]

theorem vector_one (x : Fin 1 → ℝ) : vector x = [real (x 0)] := by simp [vector]

/-- The factors of a single entry. -/
theorem fullPivotLu_single (a : ℝ) :
    fullPivotLu (single (real a)) = ⟨single (real 1), single (real a), [0], [0]⟩ := by
  have hpivot : Elimination.pivotPosition (single (real a)) 0 = (0, 0) := by
    simp [Elimination.pivotPosition, Elimination.positionsFrom]
  have hpivoted : Elimination.bringPivot 0 (Elimination.start (single (real a))) =
      ⟨single (real a), [0], [0]⟩ := by
    simp [Elimination.bringPivot, Elimination.start, hpivot, ofFn_eq_single, Elimination.exchange,
      Elimination.exchangeEntries]
  have hstep : Elimination.step (Elimination.start (single (real a))) 0 =
      ⟨single (real a), [0], [0]⟩ := by
    simp [Elimination.step, hpivoted, Elimination.clear, ofFn_eq_single]
  show (Elimination.step (Elimination.start (single (real a))) 0).factors = _
  rw [hstep]
  simp [Elimination.factors, ofFn_eq_single]

/-- Substitution in the factors of a single entry divides by it. -/
theorem luFactors_solve_single {a : ℝ} (ha : a ≠ 0) (c : ℝ) :
    (⟨single (real 1), single (real a), [0], [0]⟩ : LuFactors Exact).solve [real c] =
      [real (c / a)] := by
  simp [LuFactors.solve, forwardSubstitution, backwardSubstitution, substitutionFrom,
    blockSubstitution, blockEntry, reversed, ofFn_eq_single, DenseMatrix.row, Scalar.products,
    real_div _ ha, real_div _ one_ne_zero, List.range_succ, div_eq_mul_inv]

/-- A pivot is above the cutoff of its own matrix exactly when it is not zero. -/
theorem pivot_le_cutoff (a : ℝ) :
    Scalar.le (smallestOf [real |a|]) (rankTolerance (largestOf [real |a|]) 1) = decide (a = 0) := by
  have hsmallest : smallestOf [real |a|] = real |a| := rfl
  have hlargest : largestOf [real |a|] = real |a| := by
    rcases eq_or_ne a 0 with rfl | ha
    · simp [largestOf, Scalar.max]
    · simp [largestOf, Scalar.max, ha]
  have hcutoff : rankTolerance (real |a|) 1 = real (|a| * 2 ^ (-52 : ℤ)) := by
    show real (|a| * (1 : ℕ) * 2 ^ (-52 : ℤ)) = _
    rw [Nat.cast_one, mul_one]
  rw [hsmallest, hlargest, hcutoff, le_real]
  congr 1
  rw [eq_iff_iff]
  constructor
  · intro hle
    by_contra ha
    have hpos : 0 < |a| := abs_pos.mpr ha
    have hsmall : |a| * 2 ^ (-52 : ℤ) < |a| * 1 := by
      apply mul_lt_mul_of_pos_left _ hpos
      norm_num
    linarith
  · rintro rfl
    simp

theorem allFinite_single (a : ℝ) : (single (real a)).allFinite = true := by
  simp [DenseMatrix.allFinite, DenseMatrix.toRows, DenseMatrix.row]

theorem factor_single (a : ℝ) :
    factor .lu (single (real a)) =
      if a = 0 then .error ⟨.singular, [.pivotBelowCutoff]⟩
      else .ok ((Factors.lu ⟨single (real 1), single (real a), [0], [0]⟩).of (single (real a))) := by
  have hpivots : (Kernels.lu (single (real a))).pivots = [real |a|] := by
    show (fullPivotLu (single (real a))).pivots = _
    rw [fullPivotLu_single]
    simp [LuFactors.pivots, DenseMatrix.diagonal]
  simp only [factor, requireSquare, requireFinite, allFinite_single, hpivots, nrows_single,
    ncols_single, if_true, Outcome.ok_bind, pivot_le_cutoff, decide_eq_true_eq]
  rw [← fullPivotLu_single]
  rfl

/-- A solve with the factors of a nonzero entry divides by it. -/
theorem factoredSolve_single {a : ℝ} (ha : a ≠ 0) (c : ℝ) :
    ((Factors.lu ⟨single (real 1), single (real a), [0], [0]⟩).of (single (real a))).solve
      (single (real c)) = .ok (single (real (c / a))) := by
  have hcolumns : mapColumns (LuFactors.solve ⟨single (real 1), single (real a), [0], [0]⟩)
      (single (real c)) = single (real (c / a)) := by
    simp [mapColumns, column_single, luFactors_solve_single ha, DenseMatrix.ofColumns,
      ofFn_eq_single]
  simp [Factored.solve, Factors.of, hcolumns, requireSolution, column_single]

/-- A dense solve of a matrix with one entry goes to the triangular factors. -/
theorem solve_eq_solveBy (a c : ℝ) :
    Dense.solve .standard (single (real a)) [real c] {} =
      ((solveBy .lu (single (real a)) (single (real c))).mapReport fun report =>
        report.attach (.solving .lu 1 1)).map fun x => (x.column 0).take 1 := by
  have hpadded : paddedColumn 1 1 [real c] = single (real c) := ofFn_eq_single _
  simp [Dense.solve, Strategy.standard, Strategy.factorization, hpadded]

/-- A nonzero matrix with one entry is solved by division. -/
theorem solve_single {A : Matrix (Fin 1) (Fin 1) ℝ} (hA : A 0 0 ≠ 0) (c : Fin 1 → ℝ) :
    Dense.solve .standard (toDense A) (vector c) {} =
      .ok (vector fun _ : Fin 1 => c 0 / A 0 0) := by
  have hsolved : solveBy .lu (single (real (A 0 0))) (single (real (c 0))) =
      .ok (single (real (c 0 / A 0 0))) := by
    simp [solveBy, factor_single, hA, factoredSolve_single hA]
  rw [toDense_eq_single, vector_one, vector_one, solve_eq_solveBy, hsolved]
  simp [Outcome.mapReport, Except.map, column_single]

/-- A matrix whose only entry is zero is refused. -/
theorem solve_single_zero {A : Matrix (Fin 1) (Fin 1) ℝ} (hA : A 0 0 = 0) (c : Fin 1 → ℝ) :
    Dense.solve .standard (toDense A) (vector c) {} =
      Outcome.report ⟨.singular, [.solving .lu 1 1, .pivotBelowCutoff]⟩ := by
  rw [toDense_eq_single, vector_one, solve_eq_solveBy]
  simp [solveBy, factor_single, hA, Outcome.mapReport, Outcome.report, Except.map,
    Report.attach]

theorem squaresAt_one (A : Matrix (Fin 1) (Fin 1) ℝ) (c x : Fin 1 → ℝ) :
    squaresAt A c x = (A 0 0 * x 0 - c 0) ^ 2 := by
  rw [squaresAt, mulVec_one]
  simp [dotProduct, pow_two]

/-- Division is a least-squares solution. -/
theorem solvesLeastSquares_single {A : Matrix (Fin 1) (Fin 1) ℝ} (hA : A 0 0 ≠ 0) :
    SolvesLeastSquares .standard {} A := by
  intro c
  refine ⟨fun _ => c 0 / A 0 0, solve_single hA c, fun z => ?_⟩
  rw [squaresAt_one, squaresAt_one, mul_div_cancel₀ (c 0) hA, sub_self, zero_pow two_ne_zero]
  positivity

/-- Division solves the normal equations, and a zero is not divided by. -/
theorem solvesNormalEquations_single (J : Matrix (Fin 1) (Fin 1) ℝ) (r : Fin 1 → ℝ) :
    SolvesNormalEquations .standard {} J r := by
  intro xs hxs
  by_cases hJ : J 0 0 = 0
  · rw [solve_single_zero hJ] at hxs
    cases hxs
  · rw [solve_single hJ] at hxs
    refine ⟨fun _ => r 0 / J 0 0, (Except.ok.inj hxs).symm, ?_⟩
    have hzero : J *ᵥ (fun _ => r 0 / J 0 0) - r = 0 := by
      rw [mulVec_one]
      funext i
      rw [Fin.fin_one_eq_zero i]
      simp [mul_div_cancel₀ (r 0) hJ]
    rw [hzero, mulVec_zero]

end LeastSquares
