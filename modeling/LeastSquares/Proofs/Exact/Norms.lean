import Mathlib.Analysis.InnerProductSpace.PiL2
import LeastSquares.Proofs.Exact.Tolerance

/-!
# Norms of real leaves

In exact arithmetic the norms of this library measure real leaves by norms of vectors: the largest
magnitude by the supremum norm, the root of the sum of squares by the Euclidean norm, and the root of
the mean square by the Euclidean norm over the root of the number of leaves. So they are absolutely
homogeneous, they obey the triangle inequality, and they are zero for zeros alone. And they differ by no
more than the root of the number of leaves (`apply_laws`).
-/

namespace LeastSquares

open Matrix Exact

variable {n : Nat}

/-- A measure of vectors is a norm. -/
structure IsVectorNorm (length : (Fin n → ℝ) → ℝ) : Prop where
  smul (c : ℝ) (x : Fin n → ℝ) : length (c • x) = |c| * length x
  add_le (x y : Fin n → ℝ) : length (x + y) ≤ length x + length y
  eq_zero_iff (x : Fin n → ℝ) : length x = 0 ↔ x = 0

section Vectors

theorem isVectorNorm_sup : IsVectorNorm fun x : Fin n → ℝ => ‖x‖ where
  smul c x := norm_smul c x
  add_le := norm_add_le
  eq_zero_iff _ := norm_eq_zero

theorem sqrt_dotProduct_eq_norm (x : Fin n → ℝ) : √(x ⬝ᵥ x) = ‖WithLp.toLp 2 x‖ := by
  rw [EuclideanSpace.norm_eq]
  simp [dotProduct, sq]

theorem isVectorNorm_euclidean : IsVectorNorm fun x : Fin n → ℝ => √(x ⬝ᵥ x) where
  smul c x := by
    simp only [sqrt_dotProduct_eq_norm, WithLp.toLp_smul]
    exact norm_smul c _
  add_le x y := by
    simp only [sqrt_dotProduct_eq_norm, WithLp.toLp_add]
    exact norm_add_le _ _
  eq_zero_iff x := by rw [Real.sqrt_eq_zero (dotProduct_self_nonneg x), dotProduct_self_eq_zero]

theorem IsVectorNorm.nonneg {length : (Fin n → ℝ) → ℝ} (h : IsVectorNorm length) (x : Fin n → ℝ) :
    0 ≤ length x := by
  have hzero : length (x + (-1 : ℝ) • x) = 0 := (h.eq_zero_iff _).mpr (by simp)
  have hle := h.add_le x ((-1 : ℝ) • x)
  rw [hzero, h.smul, abs_neg, abs_one, one_mul] at hle
  linarith

/-- A mean over all entries is a norm, and also over none: then zero is the only vector. -/
theorem IsVectorNorm.div_sqrt {length : (Fin n → ℝ) → ℝ} (h : IsVectorNorm length) :
    IsVectorNorm fun x => length x / √n where
  smul c x := by rw [h.smul, mul_div_assoc]
  add_le x y := by
    rw [← add_div]
    exact div_le_div_of_nonneg_right (h.add_le x y) (Real.sqrt_nonneg _)
  eq_zero_iff x := by
    rcases n.eq_zero_or_pos with rfl | hn
    · exact iff_of_true (by simp) (Subsingleton.elim x 0)
    · have hroot : √(n : ℝ) ≠ 0 := (Real.sqrt_pos.mpr (Nat.cast_pos.mpr hn)).ne'
      rw [div_eq_zero_iff, or_iff_left hroot, h.eq_zero_iff]

/-- The largest magnitude is that of the first entry or of the others. -/
theorem norm_succ (x : Fin (n + 1) → ℝ) : ‖x‖ = max |x 0| ‖fun i : Fin n => x i.succ‖ := by
  refine le_antisymm ((pi_norm_le_iff_of_nonneg (by positivity)).mpr fun i => ?_) (max_le ?_ ?_)
  · cases i using Fin.cases with
    | zero => exact le_max_left _ _
    | succ i => exact (norm_le_pi_norm (fun i : Fin n => x i.succ) i).trans (le_max_right _ _)
  · exact norm_le_pi_norm x 0
  · exact (pi_norm_le_iff_of_nonneg (norm_nonneg x)).mpr fun i => norm_le_pi_norm x i.succ

/-- No entry is longer than the vector. -/
theorem norm_le_sqrt_dotProduct (x : Fin n → ℝ) : ‖x‖ ≤ √(x ⬝ᵥ x) := by
  refine (pi_norm_le_iff_of_nonneg (Real.sqrt_nonneg _)).mpr fun i => Real.abs_le_sqrt ?_
  rw [sq]
  exact Finset.single_le_sum (f := fun i => x i * x i) (fun i _ => mul_self_nonneg (x i))
    (Finset.mem_univ i)

/-- Every square is at most that of the largest magnitude. -/
theorem sqrt_dotProduct_le_mul_norm (x : Fin n → ℝ) : √(x ⬝ᵥ x) ≤ √n * ‖x‖ := by
  have hsum : x ⬝ᵥ x ≤ n * (‖x‖ * ‖x‖) := by
    calc x ⬝ᵥ x ≤ ∑ _i : Fin n, ‖x‖ * ‖x‖ := Finset.sum_le_sum fun i _ => by
            rw [← abs_mul_abs_self]
            exact mul_self_le_mul_self (abs_nonneg _) (norm_le_pi_norm x i)
      _ = n * (‖x‖ * ‖x‖) := by simp
  calc √(x ⬝ᵥ x) ≤ √(n * (‖x‖ * ‖x‖)) := Real.sqrt_le_sqrt hsum
    _ = √n * ‖x‖ := by
        rw [Real.sqrt_mul (Nat.cast_nonneg n), Real.sqrt_mul_self (norm_nonneg x)]

end Vectors

section Leaves

theorem maxMagnitudeStep_real (a x : ℝ) :
    maxMagnitudeStep (real a) (real x) = real (max a |x|) := by
  simp [maxMagnitudeStep, max_real]

/-- The largest magnitude of a vector, and of where the fold starts. -/
theorem foldl_maxMagnitudeStep_vector (x : Fin n → ℝ) {a : ℝ} (ha : 0 ≤ a) :
    (vector x).foldl maxMagnitudeStep (real a) = real (max a ‖x‖) := by
  induction n generalizing a with
  | zero =>
      have hzero : x = 0 := Subsingleton.elim x 0
      rw [hzero, norm_zero, max_eq_left ha]
      rfl
  | succ n ih =>
      rw [vector_succ, List.foldl_cons, maxMagnitudeStep_real, ih _ (ha.trans (le_max_left _ _)),
        max_assoc, ← norm_succ]

theorem maxMagnitude_vector (x : Fin n → ℝ) : maxMagnitude (vector x) = real ‖x‖ := by
  rw [maxMagnitude, zero_eq, foldl_maxMagnitudeStep_vector x le_rfl, max_eq_right (norm_nonneg x)]

/-- The root of the mean square of a vector; no leaves have the mean zero. -/
theorem rootMeanSquare_vector (x : Fin n → ℝ) :
    rootMeanSquare (vector x) = real (√(x ⬝ᵥ x) / √n) := by
  rcases n.eq_zero_or_pos with rfl | hn
  · simp [rootMeanSquare, vector]
  · have hne : vector x ≠ [] := List.ne_nil_of_length_pos (by rwa [vector_length])
    have hroot : √(n : ℝ) ≠ 0 := (Real.sqrt_pos.mpr (Nat.cast_pos.mpr hn)).ne'
    rw [rootMeanSquare_of_ne_nil hne, rootSumSquares_vector, vector_length, ofNat_eq,
      sqrt_real (Nat.cast_nonneg n), real_div _ hroot]

/-- A norm of this library measures real leaves by a norm of vectors. -/
theorem Norm.IsBuiltIn.exists_vectorNorm {norm : Norm Exact} (h : norm.IsBuiltIn) (n : Nat) :
    ∃ length : (Fin n → ℝ) → ℝ, IsVectorNorm length ∧
      ∀ x, norm.ofLeaves (vector x) = real (length x) := by
  cases norm with
  | max => exact ⟨_, isVectorNorm_sup, maxMagnitude_vector⟩
  | rms => exact ⟨_, isVectorNorm_euclidean.div_sqrt, rootMeanSquare_vector⟩
  | two => exact ⟨_, isVectorNorm_euclidean, rootSumSquares_vector⟩
  | custom measure => exact h.elim

end Leaves

section Trees

variable {κ : Type} {u v : Tree κ Exact} {x y : Fin n → ℝ} (hu : u.leaves = vector x)
  (hv : v.leaves = vector y)

include hv

/-- The leaves of a multiple. -/
theorem leaves_scale_real (c : ℝ) : (v.scale (real c)).leaves = vector (c • y) := by
  rw [Tree.leaves_scale, hv, map_vector (real_mul c)]
  rfl

include hu

/-- Trees with as many real leaves have a sum. -/
theorem exists_add_real : ∃ sum, u.add v = .ok sum ∧ sum.leaves = vector (x + y) := by
  have hsize : u.size = v.size := by
    rw [← Tree.leaves_length, ← Tree.leaves_length, hu, hv, vector_length, vector_length]
  refine ⟨_, Tree.zipWith_eq_ok _ hsize, ?_⟩
  rw [Tree.leaves_withLeaves u (by simp [Tree.leaves_length, hsize]), hu, hv,
    zipWith_vector real_add]
  rfl

/-- **The norms are norms.** Two trees have the same number of real leaves. Each norm of this library
measures them, a multiple and the sum by real numbers: the multiple by as many times the magnitude of the
factor, the sum by at most the sum of both, and a tree by zero exactly if all its leaves are zero. The
largest magnitude is at most the root of the sum of squares, which is the root of the number of leaves
times the root of the mean square and at most as many times the largest magnitude. Its square is the sum
of squares. -/
theorem apply_laws (c : ℝ) :
    (∀ norm : Norm Exact, norm.IsBuiltIn → ∃ a b : ℝ,
        norm.apply u = real a ∧ norm.apply v = real b ∧
        norm.apply (v.scale (real c)) = real (|c| * b) ∧
        (∃ sum d, u.add v = .ok sum ∧ norm.apply sum = real d ∧ d ≤ a + b) ∧
        (b = 0 ↔ ∀ z ∈ v.leaves, z = 0)) ∧
      ∃ largest mean two : ℝ, Norm.max.apply v = real largest ∧ Norm.rms.apply v = real mean ∧
        Norm.two.apply v = real two ∧ largest ≤ two ∧ two = √n * mean ∧
        √n * mean ≤ √n * largest ∧ sumSquares v = real (two ^ 2) := by
  constructor
  · intro norm hnorm
    obtain ⟨length, hlength, hmeasure⟩ := hnorm.exists_vectorNorm n
    have happly {t : Tree κ Exact} {z : Fin n → ℝ} (ht : t.leaves = vector z) :
        norm.apply t = real (length z) := by rw [Norm.apply, ht, hmeasure]
    obtain ⟨sum, hadd, hsum⟩ := exists_add_real hu hv
    refine ⟨length x, length y, happly hu, happly hv, ?_,
      ⟨sum, _, hadd, happly hsum, hlength.add_le x y⟩, ?_⟩
    · rw [happly (leaves_scale_real hv c), hlength.smul]
    · rw [hlength.eq_zero_iff, hv]
      simp [vector, funext_iff]
  · have hmean : √n * (√(y ⬝ᵥ y) / √n) = √(y ⬝ᵥ y) := by
      rcases n.eq_zero_or_pos with rfl | hn
      · simp
      · exact mul_div_cancel₀ _ (Real.sqrt_pos.mpr (Nat.cast_pos.mpr hn)).ne'
    refine ⟨‖y‖, √(y ⬝ᵥ y) / √n, √(y ⬝ᵥ y), ?_, ?_, ?_, norm_le_sqrt_dotProduct y, hmean.symm,
      hmean.trans_le (sqrt_dotProduct_le_mul_norm y), ?_⟩
    · rw [Norm.apply, hv, Norm.ofLeaves, maxMagnitude_vector]
    · rw [Norm.apply, hv, Norm.ofLeaves, rootMeanSquare_vector]
    · rw [Norm.apply, hv, Norm.ofLeaves, rootSumSquares_vector]
    · rw [sumSquares_of_leaves hv, Real.sq_sqrt (dotProduct_self_nonneg y)]

omit hu hv in
/-- Two leaves in an array and two in a tuple, and a factor that turns round. -/
theorem apply_laws_pair :
    let u : Tree Unit Exact := .array .growable [real 3, real 4]
    let v : Tree Unit Exact := .tuple [.scalar (real (-4)), .scalar (real 3)]
    u.leaves = vector ![3, 4] ∧ v.leaves = vector ![-4, 3] ∧
      ∃ a b : ℝ, Norm.rms.apply u = real a ∧ Norm.rms.apply v = real b ∧ b ≠ 0 ∧
        Norm.rms.apply (v.scale (real (-2))) = real (2 * b) ∧
        ∃ sum d, u.add v = .ok sum ∧ Norm.rms.apply sum = real d ∧ d ≤ a + b := by
  intro u v
  have hu : u.leaves = vector ![3, 4] := by simp [u, Tree.leaves, vector]
  have hv : v.leaves = vector ![-4, 3] := by
    simp [v, Tree.leaves, Tree.leavesOfParts, vector]
  obtain ⟨a, b, ha, hb, hscale, hadd, hzero⟩ := (apply_laws hu hv (-2)).1 .rms trivial
  rw [abs_neg, abs_two] at hscale
  refine ⟨hu, hv, a, b, ha, hb, fun hb => ?_, hscale, hadd⟩
  have hthree : real 3 = 0 := hzero.mp hb _ (by simp [v, Tree.leaves, Tree.leavesOfParts])
  exact three_ne_zero (real.inj hthree)

end Trees

end LeastSquares
