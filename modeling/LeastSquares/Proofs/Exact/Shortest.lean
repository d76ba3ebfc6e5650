import LeastSquares.Proofs.Exact.Minimiser

/-!
# The shortest least-squares solution

The least-squares solutions of a system differ by vectors that the matrix sends to zero, and one of
them is perpendicular to all of these. It is shorter than every other one, and it is the only one of its
kind; a matrix of full column rank has no other solution at all. The factorizations are all measured
against it.
-/

namespace LeastSquares

open Matrix

variable {m n : Nat} {A : Matrix (Fin m) (Fin n) ℝ} {b : Fin m → ℝ} {x z : Fin n → ℝ}

/-- A solution of the normal equations that is perpendicular to whatever the matrix sends to zero. -/
structure IsShortestSolution (A : Matrix (Fin m) (Fin n) ℝ) (b : Fin m → ℝ) (x : Fin n → ℝ) :
    Prop where
  normal : Aᵀ *ᵥ (A *ᵥ x - b) = 0
  perpendicular : ∀ z, A *ᵥ z = 0 → x ⬝ᵥ z = 0

/-- If only zero is sent to zero, the normal equations are all that is asked. -/
theorem IsShortestSolution.of_injective (hnormal : Aᵀ *ᵥ (A *ᵥ x - b) = 0)
    (hinjective : ∀ z, A *ᵥ z = 0 → z = 0) : IsShortestSolution A b x :=
  ⟨hnormal, fun z hz => by rw [hinjective z hz, dotProduct_zero]⟩

/-- Without unknowns there is nothing to ask. -/
theorem IsShortestSolution.of_isEmpty {A : Matrix (Fin m) (Fin 0) ℝ} {x : Fin 0 → ℝ} :
    IsShortestSolution A b x :=
  .of_injective (Subsingleton.elim _ _) fun z _ => Subsingleton.elim z 0

/-- Squares at a solution of the normal equations and elsewhere differ by those of the difference. -/
theorem squaresAt_of_normal (h : Aᵀ *ᵥ (A *ᵥ x - b) = 0) (z : Fin n → ℝ) :
    squaresAt A b z = squaresAt A b x + A *ᵥ (z - x) ⬝ᵥ A *ᵥ (z - x) := by
  have hmixed : (A *ᵥ x - b) ⬝ᵥ A *ᵥ (z - x) = 0 := by
    rw [dotProduct_mulVec, ← mulVec_transpose, h, zero_dotProduct]
  have hsplit : A *ᵥ z - b = (A *ᵥ x - b) + A *ᵥ (z - x) := by
    rw [mulVec_sub]
    abel
  rw [squaresAt, hsplit, add_dotProduct, dotProduct_add, dotProduct_add, hmixed,
    dotProduct_comm (A *ᵥ (z - x)) (A *ᵥ x - b), hmixed, squaresAt]
  ring

theorem isLeastSquares_of_normal (h : Aᵀ *ᵥ (A *ᵥ x - b) = 0) : IsLeastSquares A b x := by
  intro z
  have hnonneg := dotProduct_self_nonneg (A *ᵥ (z - x))
  rw [squaresAt_of_normal h z]
  linarith

/-- Least-squares solutions differ by a vector that the matrix sends to zero. -/
theorem IsLeastSquares.mulVec_sub_eq_zero (hz : IsLeastSquares A b z)
    (h : Aᵀ *ᵥ (A *ᵥ x - b) = 0) : A *ᵥ (z - x) = 0 := by
  have hbest := hz x
  rw [squaresAt_of_normal h z] at hbest
  have hnonneg := dotProduct_self_nonneg (A *ᵥ (z - x))
  exact dotProduct_self_eq_zero.mp (le_antisymm (by linarith) hnonneg)

/-- Where a system has a solution, the normal equations have no other. -/
theorem mulVec_eq_of_normal (h : Aᵀ *ᵥ (A *ᵥ x - b) = 0) (hz : A *ᵥ z = b) : A *ᵥ x = b := by
  have hbest : IsLeastSquares A b z := isLeastSquares_of_normal (by rw [hz, sub_self, mulVec_zero])
  have hsame := hbest.mulVec_sub_eq_zero h
  rw [mulVec_sub, sub_eq_zero] at hsame
  exact hsame.symm.trans hz

namespace IsShortestSolution

/-- Every other least-squares solution is longer. -/
theorem lt (h : IsShortestSolution A b x) (hz : IsLeastSquares A b z) (hne : z ≠ x) :
    x ⬝ᵥ x < z ⬝ᵥ z := by
  have hmixed := h.perpendicular (z - x) (hz.mulVec_sub_eq_zero h.normal)
  have hsplit : z ⬝ᵥ z = x ⬝ᵥ x + (z - x) ⬝ᵥ (z - x) := by
    conv_lhs => rw [← add_sub_cancel x z]
    rw [add_dotProduct, dotProduct_add, dotProduct_add, dotProduct_comm (z - x) x, hmixed]
    ring
  have hpositive : 0 < (z - x) ⬝ᵥ (z - x) := by
    refine lt_of_le_of_ne (dotProduct_self_nonneg _) fun hzero => hne ?_
    exact sub_eq_zero.mp (dotProduct_self_eq_zero.mp hzero.symm)
  linarith

/-- No solution of the normal equations is shorter. -/
theorem le_of_normal (h : IsShortestSolution A b x) (hz : Aᵀ *ᵥ (A *ᵥ z - b) = 0) :
    x ⬝ᵥ x ≤ z ⬝ᵥ z := by
  by_cases hne : z = x
  · rw [hne]
  · exact (h.lt (isLeastSquares_of_normal hz) hne).le

/-- There is only one shortest solution. -/
theorem eq (h : IsShortestSolution A b x) (hz : IsShortestSolution A b z) : x = z := by
  by_contra hne
  have hlt := h.lt (isLeastSquares_of_normal hz.normal) (Ne.symm hne)
  have hgt := hz.lt (isLeastSquares_of_normal h.normal) hne
  exact lt_asymm hlt hgt

/-- A system whose matrix has full row rank is solved exactly. -/
theorem mulVec_eq (h : IsShortestSolution A b x) (hrank : A.rank = m) : A *ᵥ x = b := by
  rw [← rank_transpose] at hrank
  exact sub_eq_zero.mp (eq_zero_of_rank hrank h.normal)

end IsShortestSolution

end LeastSquares
