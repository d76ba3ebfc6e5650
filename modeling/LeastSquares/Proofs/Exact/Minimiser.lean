import Mathlib.Data.Real.Basic
import Mathlib.LinearAlgebra.Matrix.DotProduct
import Mathlib.LinearAlgebra.Matrix.Rank
import Mathlib.Tactic.Linarith
import Mathlib.Tactic.Ring
import LeastSquares.Proofs.Exact.Jacobian

/-!
# Least-squares solutions

What a solver of linear systems is asked for, and what follows for a Gauss–Newton step. A vector is a
least-squares solution when no other vector comes closer; with full column rank it is the only one
(`IsLeastSquares.lt`). Relative to a point, a least-squares solution for the residual there is the way
back from the best point (`IsLeastSquares.sub`). For a residual that is not affine the solver is
asked for the normal equations alone, and these make the predicted change of the objective
nonpositive along the negative of the solution.
-/

namespace LeastSquares

open Matrix Exact

variable {m n : Nat}

section Affine

variable {A : Matrix (Fin m) (Fin n) ℝ} {b : Fin m → ℝ} {x z : Fin n → ℝ}

/-- The sum of squares of `A x - b`. -/
def squaresAt (A : Matrix (Fin m) (Fin n) ℝ) (b : Fin m → ℝ) (x : Fin n → ℝ) : ℝ :=
  (A *ᵥ x - b) ⬝ᵥ (A *ᵥ x - b)

/-- No vector comes closer to solving `A x = b`. -/
def IsLeastSquares (A : Matrix (Fin m) (Fin n) ℝ) (b : Fin m → ℝ) (x : Fin n → ℝ) : Prop :=
  ∀ z, squaresAt A b x ≤ squaresAt A b z

/-- The dense solver answers a least-squares solution for every right-hand side. -/
def SolvesLeastSquares [Dense.Kernels Exact] (strategy : Dense.Strategy) (tags : Tags)
    (A : Matrix (Fin m) (Fin n) ℝ) : Prop :=
  ∀ c, ∃ z, Dense.solve strategy (toDense A) (vector c) tags = .ok (vector z) ∧
    IsLeastSquares A c z

theorem dotProduct_self_nonneg (u : Fin n → ℝ) : 0 ≤ u ⬝ᵥ u :=
  Finset.sum_nonneg fun i _ => mul_self_nonneg (u i)

theorem squaresAt_nonneg (A : Matrix (Fin m) (Fin n) ℝ) (b : Fin m → ℝ) (x : Fin n → ℝ) :
    0 ≤ squaresAt A b x := dotProduct_self_nonneg _

/-- The residual at a point, as the right-hand side of a system, is solved as well by a step as the
system itself by the point after that step. -/
theorem squaresAt_residual (A : Matrix (Fin m) (Fin n) ℝ) (b : Fin m → ℝ) (x z : Fin n → ℝ) :
    squaresAt A (A *ᵥ x - b) z = squaresAt A b (x - z) := by
  have hneg : A *ᵥ z - (A *ᵥ x - b) = -(A *ᵥ (x - z) - b) := by
    rw [mulVec_sub]
    abel
  rw [squaresAt, squaresAt, hneg, neg_dotProduct, dotProduct_neg, neg_neg]

/-- From a point, the negative of a least-squares solution for the residual leads to a least-squares
solution of the system. -/
theorem IsLeastSquares.sub (h : IsLeastSquares A (A *ᵥ x - b) z) : IsLeastSquares A b (x - z) := by
  intro w
  have hw := h (x - w)
  rwa [squaresAt_residual, squaresAt_residual, sub_sub_cancel] at hw

/-- The parallelogram law for the residuals at two points. -/
theorem squaresAt_midpoint (A : Matrix (Fin m) (Fin n) ℝ) (b : Fin m → ℝ) (x z : Fin n → ℝ) :
    4 * squaresAt A b ((1 / 2 : ℝ) • (x + z)) + A *ᵥ (x - z) ⬝ᵥ A *ᵥ (x - z) =
      2 * squaresAt A b x + 2 * squaresAt A b z := by
  have hsum : A *ᵥ ((1 / 2 : ℝ) • (x + z)) - b =
      (1 / 2 : ℝ) • ((A *ᵥ x - b) + (A *ᵥ z - b)) := by
    rw [mulVec_smul, mulVec_add]
    ext i
    simp only [Pi.sub_apply, Pi.smul_apply, Pi.add_apply, smul_eq_mul]
    ring
  have hdiff : A *ᵥ (x - z) = (A *ᵥ x - b) - (A *ᵥ z - b) := by
    rw [mulVec_sub]
    abel
  unfold squaresAt
  rw [hsum, hdiff]
  simp only [smul_dotProduct, dotProduct_smul, add_dotProduct, dotProduct_add, sub_dotProduct,
    dotProduct_sub, smul_eq_mul, dotProduct_comm (A *ᵥ z) (A *ᵥ x), dotProduct_comm b]
  ring

theorem eq_zero_of_rank (hrank : A.rank = n) (h : A *ᵥ x = 0) : x = 0 := by
  have hnullity := LinearMap.finrank_range_add_finrank_ker A.mulVecLin
  rw [Module.finrank_fin_fun] at hnullity
  have hker : Module.finrank ℝ (LinearMap.ker A.mulVecLin) = 0 := by
    rw [Matrix.rank] at hrank
    omega
  have hx : x ∈ LinearMap.ker A.mulVecLin := h
  rwa [Submodule.finrank_eq_zero.mp hker, Submodule.mem_bot] at hx

/-- With full column rank every other vector is strictly worse than a least-squares solution. -/
theorem IsLeastSquares.lt (h : IsLeastSquares A b x) (hrank : A.rank = n) (hz : z ≠ x) :
    squaresAt A b x < squaresAt A b z := by
  by_contra hle
  have hmid := squaresAt_midpoint A b x z
  have hbest := h ((1 / 2 : ℝ) • (x + z))
  have hdist : A *ᵥ (x - z) ⬝ᵥ A *ᵥ (x - z) = 0 := by
    have hnonneg := dotProduct_self_nonneg (A *ᵥ (x - z))
    linarith
  rw [dotProduct_self_eq_zero] at hdist
  exact hz (sub_eq_zero.mp (eq_zero_of_rank hrank hdist)).symm

/-- With full column rank there is only one least-squares solution. -/
theorem IsLeastSquares.eq (h : IsLeastSquares A b x) (hz : IsLeastSquares A b z)
    (hrank : A.rank = n) : z = x := by
  by_contra hne
  exact absurd (hz x) (not_le.mpr (h.lt hrank hne))

end Affine

section Normal

variable {J : Matrix (Fin m) (Fin n) ℝ} {r : Fin m → ℝ} {z : Fin n → ℝ}

/-- What the dense solver answers, if it answers at all, solves the normal equations. -/
def SolvesNormalEquations [Dense.Kernels Exact] (strategy : Dense.Strategy) (tags : Tags)
    (J : Matrix (Fin m) (Fin n) ℝ) (r : Fin m → ℝ) : Prop :=
  ∀ xs, Dense.solve strategy (toDense J) (vector r) tags = .ok xs →
    ∃ z, xs = vector z ∧ Jᵀ *ᵥ (J *ᵥ z - r) = 0

/-- For a solution of the normal equations the residual and the image have the product that the image
has with itself. -/
theorem dotProduct_of_normal (h : Jᵀ *ᵥ (J *ᵥ z - r) = 0) :
    r ⬝ᵥ J *ᵥ z = J *ᵥ z ⬝ᵥ J *ᵥ z := by
  have horth : (J *ᵥ z - r) ⬝ᵥ J *ᵥ z = 0 := by
    rw [dotProduct_mulVec, ← mulVec_transpose, h, zero_dotProduct]
  rw [sub_dotProduct, sub_eq_zero] at horth
  exact horth.symm

/-- Along the negative of a solution of the normal equations the objective does not grow, to first
order. -/
theorem predicted_nonpos (h : Jᵀ *ᵥ (J *ᵥ z - r) = 0) {t : ℝ} (ht : 0 ≤ t) :
    2 * (r ⬝ᵥ J *ᵥ (-t • z)) ≤ 0 := by
  rw [mulVec_smul, dotProduct_smul, dotProduct_of_normal h, smul_eq_mul]
  have hnonneg := mul_nonneg ht (dotProduct_self_nonneg (J *ᵥ z))
  linarith

end Normal

end LeastSquares
