import LeastSquares.Proofs.Exact.AffineRun
import LeastSquares.Proofs.Iteration.Answers

/-!
# Steps of a fixed size on an affine residual

For the residual `A x - b` with full column rank, the solution for the residual at a point is the way
from the least-squares solution to this point. A step of size `l` along the negative of it therefore
leaves `1 - l` times the way, wherever it starts. So after `k` steps the way is `(1 - l) ^ k` times as
long as at the start, in the same direction or, where `l` is above one and `k` is odd, in the opposite
one (`fixedRate_error`). Full steps are the case `l = 1`. A size below zero or above two leads away from
the solution.
-/

namespace LeastSquares

open Matrix Exact LeastSquares.Tree GaussNewton

variable {κ Aux : Type} {m : Nat}

/-- A tree is `c` times as far from `best` as `x` is, and in the same direction. -/
def IsOffBy (s : Tree κ Exact) (best x : Fin s.size → ℝ) (c : ℝ) (t : Tree κ Exact) : Prop :=
  ∃ z, t = s.withReals z ∧ z - best = c • (x - best)

section Run

variable [Dense.Kernels Exact] {residual : Residual κ Exact Aux} {s : Tree κ Exact}
  {A : Matrix (Fin m) (Fin s.size) ℝ} {b : Fin m → ℝ} {best x : Fin s.size → ℝ}
  {strategy : Dense.Strategy} {tags : Tags}

/-- A step of size `l` leaves `1 - l` times the way to the least-squares solution. -/
theorem step_fixedRate (tolerance : Tolerance Exact) (norm : Norm Exact)
    (h : residual.IsAffine s A b) (hsolver : SolvesLeastSquares strategy tags A)
    (hbest : IsLeastSquares A b best) (l : ℝ) {c : ℝ} {t : Tree κ Exact}
    (ht : IsOffBy s best x c t) (state : GaussNewtonState κ Exact) :
    ∃ t' state' aux,
      (newton tolerance norm ⟨none, strategy⟩ (.fixed ⟨real l⟩)).step residual tags t state =
          .ok (t', state', aux) ∧
        IsOffBy s best x ((1 - l) * c) t' := by
  obtain ⟨z, rfl, hz⟩ := ht
  obtain ⟨direction, hsolve, hdirection⟩ := hsolver (A *ᵥ z - b)
  have hway : direction = z - best := by
    have hlands : z - direction = best := hbest.eq hdirection.sub h.rank
    rw [← hlands, sub_sub_cancel]
  obtain ⟨value, aux, hvalue, -⟩ := (h.linearizesAt (z - l • direction)).value
  have hstep := step_fixed tolerance norm (h.linearizesAt z) hsolve l hvalue state
  refine ⟨_, _, aux, hstep, z - l • direction, rfl, ?_⟩
  calc z - l • direction - best
      = (z - best) - l • (z - best) := by rw [hway, sub_right_comm]
    _ = (1 - l) • (z - best) := by rw [sub_smul, one_smul]
    _ = ((1 - l) * c) • (x - best) := by rw [hz, smul_smul]

/-- Step by step: the induction is on the number of steps. -/
theorem iterateAt_fixedRate (tolerance : Tolerance Exact) (norm : Norm Exact)
    (h : residual.IsAffine s A b) (hsolver : SolvesLeastSquares strategy tags A)
    (hbest : IsLeastSquares A b best) (l : ℝ) (k : Nat) :
    ∃ it,
      (newton tolerance norm ⟨none, strategy⟩ (.fixed ⟨real l⟩)).toSolver.iterateAt residual tags
          (s.withReals x) k = .ok it ∧
        IsOffBy s best x ((1 - l) ^ k) it.point := by
  induction k with
  | zero => exact ⟨_, rfl, x, rfl, by rw [pow_zero, one_smul]⟩
  | succ k ih =>
      obtain ⟨it, hit, hpoint⟩ := ih
      obtain ⟨t', state', aux, hstep, ht'⟩ :=
        step_fixedRate tolerance norm h hsolver hbest l hpoint it.state
      refine ⟨⟨t', state', some aux, it.numSteps + 1⟩, ?_, ?_⟩
      · exact IterativeSolver.iterateAt_of_step hit hstep
      · rw [pow_succ']
        exact ht'

/-- **Steps of a fixed size on an affine residual.** For a residual `A x - b` with full column rank, a
solver that answers least-squares solutions, and steps of any size `l`, no step errs, and after `k`
steps the point is `(1 - l) ^ k` times as far from the only point where the objective is least as the
starting point was. The answer or the failure of a solve is such a point for its number of steps. -/
theorem fixedRate_error {y : Tree κ Exact} {A : Matrix (Fin m) (Fin y.size) ℝ} {b : Fin m → ℝ}
    {x : Fin y.size → ℝ} (hy : y.leaves = vector x) (h : residual.IsAffine y A b) {config : Config}
    (hsolver : SolvesLeastSquares strategy config.tags A) (tolerance : Tolerance Exact)
    (norm : Norm Exact) (l : ℝ) :
    let solver := (newton tolerance norm ⟨none, strategy⟩ (.fixed ⟨real l⟩)).toSolver
    ∃ best, (∀ z, z ≠ best → squaresAt A b best < squaresAt A b z) ∧
      (∀ k, ∃ it, solver.iterateAt residual config.tags y k = .ok it ∧
        IsOffBy y best x ((1 - l) ^ k) it.point) ∧
      (∀ solution, solver.solve residual y config = .ok solution →
        IsOffBy y best x ((1 - l) ^ solution.numSteps) solution.value) ∧
      ∀ failure, solver.solve residual y config = .error (.reported failure) →
        IsOffBy y best x ((1 - l) ^ failure.numSteps) failure.value := by
  intro solver
  obtain ⟨best, -, hbest⟩ := hsolver b
  have hiterates (k : Nat) : ∃ it, solver.iterateAt residual config.tags y k = .ok it ∧
      IsOffBy y best x ((1 - l) ^ k) it.point := by
    have hit := iterateAt_fixedRate (x := x) tolerance norm h hsolver hbest l k
    rwa [withReals_of_leaves hy] at hit
  have hreached {k : Nat} {it : Iterate κ Exact Aux (GaussNewtonState κ Exact)}
      (hit : solver.iterateAt residual config.tags y k = .ok it) :
      IsOffBy y best x ((1 - l) ^ k) it.point := by
    obtain ⟨it', hit', hpoint⟩ := hiterates k
    cases hit.symm.trans hit'
    exact hpoint
  refine ⟨best, fun z hz => hbest.lt h.rank hz, hiterates, fun solution hsolution => ?_,
    fun failure hfailure => ?_⟩
  · obtain ⟨it, hit, hpoint, -⟩ := iterateAt_of_solve hsolution
    exact hpoint ▸ hreached hit
  · obtain ⟨it, hit, hpoint⟩ := iterateAt_of_failure hfailure
    exact hpoint ▸ hreached hit

end Run

section Halves

/-- Three is the least-squares solution of twice the point less six. -/
theorem isLeastSquares_three : IsLeastSquares !![2] ![6] (![3] : Fin 1 → ℝ) := by
  intro z
  have hleast : squaresAt !![2] ![6] (![3] : Fin 1 → ℝ) = 0 := by
    rw [squaresAt_one]
    norm_num
  rw [hleast]
  exact squaresAt_nonneg !![2] ![6] z

/-- What is left of the way from zero to three. -/
theorem eq_scalar_of_isOffBy {c : ℝ} {t : Tree Unit Exact}
    (h : IsOffBy (.scalar (real 0)) (![3] : Fin 1 → ℝ) ![0] c t) :
    t = .scalar (real (3 - c * 3)) := by
  obtain ⟨(z : Fin 1 → ℝ), rfl, hz⟩ := h
  have hentry : z 0 - 3 = c * (0 - 3) := congrFun hz (0 : Fin 1)
  have hvalue : z = (![3 - c * 3] : Fin 1 → ℝ) := by
    funext i
    rw [Fin.fin_one_eq_zero i]
    show z 0 = 3 - c * 3
    linarith
  rw [hvalue]
  rfl

theorem leaves_zero : (Tree.scalar (real 0) : Tree Unit Exact).leaves = vector ![0] :=
  (vector_one ![0]).symm

theorem solvesLeastSquares_two :
    SolvesLeastSquares .standard {} (!![2] : Matrix (Fin 1) (Fin 1) ℝ) :=
  solvesLeastSquares_single (by simp)

/-- Half steps from zero towards three: a quarter of the way is left after two of them. -/
theorem fixedRate_error_halves :
    (Tree.scalar (real 0) : Tree Unit Exact).leaves = vector ![0] ∧
      doubledLessSix.IsAffine (.scalar (real 0)) !![2] ![6] ∧
      SolvesLeastSquares .standard {} (!![2] : Matrix (Fin 1) (Fin 1) ℝ) ∧
      ∃ it, (newton ⟨real 0, real 1⟩ .max {} (.fixed ⟨real (1 / 2)⟩)).toSolver.iterateAt
          doubledLessSix {} (.scalar (real 0)) 2 = .ok it ∧ it.point = .scalar (real (9 / 4)) := by
  refine ⟨leaves_zero, doubledLessSix_isAffine, solvesLeastSquares_two, ?_⟩
  obtain ⟨best, hbest, hiterates, -⟩ :=
    @fixedRate_error Unit Unit 1 _ doubledLessSix .standard (.scalar (real 0)) !![2] ![6] ![0]
      leaves_zero doubledLessSix_isAffine {} solvesLeastSquares_two ⟨real 0, real 1⟩ .max (1 / 2)
  have hthree : best = (![3] : Fin 1 → ℝ) := by
    by_contra hne
    exact absurd (hbest ![3] fun h => hne h.symm) (not_lt.mpr (isLeastSquares_three best))
  subst hthree
  obtain ⟨it, hit, hpoint⟩ := hiterates 2
  have hquarter : (3 : ℝ) - (1 - 1 / 2) ^ 2 * 3 = 9 / 4 := by norm_num
  exact ⟨it, hit, (eq_scalar_of_isOffBy hpoint).trans (by rw [hquarter])⟩

end Halves

end LeastSquares
