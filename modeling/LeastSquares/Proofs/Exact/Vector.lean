import Mathlib.Algebra.BigOperators.Fin
import Mathlib.Data.Matrix.Mul
import LeastSquares.Norm
import LeastSquares.Proofs.Exact.Number
import LeastSquares.Proofs.Outcome
import LeastSquares.Tree.Lemmas

/-!
# Real vectors as leaves

A vector of real numbers is a list of exact scalars, and a tree whose leaves are such a list is told
by its skeleton and the vector. On these trees leafwise arithmetic is arithmetic of vectors: sums and
multiples of the vectors, the product of two vectors, and as the objective the product of a vector
with itself. A list whose sum of squares is finite is a vector of real numbers.
-/

namespace LeastSquares

open Matrix

namespace Exact

variable {n : Nat}

/-- The scalars of a vector of real numbers. -/
def vector (x : Fin n → ℝ) : List Exact := List.ofFn fun i => real (x i)

@[simp] theorem vector_length (x : Fin n → ℝ) : (vector x).length = n := List.length_ofFn

@[simp] theorem vector_getElem (x : Fin n → ℝ) (i : Nat) (h : i < (vector x).length) :
    (vector x)[i] = real (x ⟨i, by simpa using h⟩) := by
  simp [vector]

theorem vector_succ (x : Fin (n + 1) → ℝ) :
    vector x = real (x 0) :: vector fun i => x i.succ := List.ofFn_succ

theorem vector_injective {x z : Fin n → ℝ} (h : vector x = vector z) : x = z := by
  funext i
  exact real.inj (congrFun (List.ofFn_injective h) i)

theorem map_vector {f : Exact → Exact} {g : ℝ → ℝ} (h : ∀ x, f (real x) = real (g x))
    (x : Fin n → ℝ) : (vector x).map f = vector fun i => g (x i) := by
  simp [vector, List.map_ofFn, Function.comp_def, h]

theorem zipWith_vector {f : Exact → Exact → Exact} {g : ℝ → ℝ → ℝ}
    (h : ∀ x y, f (real x) (real y) = real (g x y)) (x y : Fin n → ℝ) :
    List.zipWith f (vector x) (vector y) = vector fun i => g (x i) (y i) := by
  apply List.ext_getElem
  · simp
  · intro i h₁ h₂
    simp [h]

section Sums

/-- Adding up a vector onto a real number. -/
theorem foldl_add_vector (x : Fin n → ℝ) (a : ℝ) :
    (vector x).foldl (· + ·) (real a) = real (a + ∑ i, x i) := by
  induction n generalizing a with
  | zero => simp [vector]
  | succ n ih =>
      rw [vector_succ, List.foldl_cons, real_add, ih, Fin.sum_univ_succ, add_assoc]

theorem sum_vector (x : Fin n → ℝ) : Scalar.sum (vector x) = real (∑ i, x i) := by
  unfold Scalar.sum
  rw [negZero_eq, foldl_add_vector, zero_add]

theorem dotLists_vector (x y : Fin n → ℝ) :
    dotLists (vector x) (vector y) = .ok (real (x ⬝ᵥ y)) := by
  unfold dotLists Scalar.products
  rw [zipWith_vector real_mul, sum_vector]
  simp [dotProduct]

theorem sumSquaresOf_vector (x : Fin n → ℝ) : sumSquaresOf (vector x) = real (x ⬝ᵥ x) := by
  unfold sumSquaresOf
  rw [map_vector (fun x => real_mul x x), sum_vector]
  rfl

/-- The objective of a tree of real numbers. -/
theorem sumSquares_of_leaves {κ : Type} {t : Tree κ Exact} {x : Fin n → ℝ}
    (h : t.leaves = vector x) : sumSquares t = real (x ⬝ᵥ x) := by
  rw [sumSquares, h, sumSquaresOf_vector]

/-- Adding up onto a scalar gives a real number only if everything that is added is real. -/
theorem exists_vector_of_foldl {xs : List Exact} {a : Exact} {z : ℝ}
    (h : (xs.map fun x => x * x).foldl (· + ·) a = real z) :
    (∃ x, a = real x) ∧ ∃ r : Fin xs.length → ℝ, xs = vector r := by
  induction xs generalizing a with
  | nil => exact ⟨⟨z, h⟩, fun i => i.elim0, rfl⟩
  | cons x xs ih =>
      obtain ⟨⟨c, hc⟩, r, hr⟩ := ih h
      obtain ⟨ha, b, hb⟩ := add_eq_real hc
      obtain ⟨y, rfl⟩ := mul_self_eq_real hb
      refine ⟨ha, Fin.cons y r, ?_⟩
      rw [vector_succ]
      simpa using hr

/-- A list with a finite sum of squares holds real numbers only. -/
theorem exists_vector_of_sumSquaresOf {xs : List Exact}
    (h : Scalar.isFinite (sumSquaresOf xs) = true) : ∃ r : Fin xs.length → ℝ, xs = vector r := by
  obtain ⟨z, hz⟩ := isFinite_iff.mp h
  exact (exists_vector_of_foldl hz).2

end Sums

end Exact

namespace Tree

open Exact

variable {κ : Type}

theorem withLeaves_withLeaves {α : Type} [Scalar α] (t : Tree κ α) (xs ys : List α) :
    (t.withLeaves xs).withLeaves ys = t.withLeaves ys := by
  simp [withLeaves, unflatten, refill_refill]

/-- The skeleton of a tree with the entries of a vector as its leaves. -/
noncomputable def withReals (s : Tree κ Exact) (x : Fin s.size → ℝ) : Tree κ Exact :=
  s.withLeaves (vector x)

section Reals

variable (s : Tree κ Exact) (x y : Fin s.size → ℝ)

@[simp] theorem leaves_withReals : (s.withReals x).leaves = vector x :=
  leaves_withLeaves s (vector_length x)

@[simp] theorem size_withReals : (s.withReals x).size = s.size := size_withLeaves s _

@[simp] theorem withLeaves_withReals (xs : List Exact) :
    (s.withReals x).withLeaves xs = s.withLeaves xs := withLeaves_withLeaves s _ _

variable {s x} in
/-- A tree with real leaves is its skeleton with them. -/
theorem withReals_of_leaves (h : s.leaves = vector x) : s.withReals x = s :=
  eq_of_skeleton_of_leaves (skeleton_withLeaves s _) (by rw [leaves_withReals, h])

theorem rebuild_withReals : (s.withReals x).rebuild (vector y) = .ok (s.withReals y) := by
  rw [rebuild_eq_ok _ (by simp), withLeaves_withReals, withReals]

theorem add_withReals : (s.withReals x).add (s.withReals y) = .ok (s.withReals (x + y)) := by
  unfold add
  rw [zipWith_eq_ok _ (by simp)]
  simp only [leaves_withReals, withLeaves_withReals, zipWith_vector real_add]
  rfl

/-- A step back along a vector. -/
theorem add_withReals_neg_smul (l : ℝ) :
    (s.withReals x).add (s.withReals (-l • y)) = .ok (s.withReals (x - l • y)) := by
  rw [add_withReals, neg_smul, ← sub_eq_add_neg]

theorem sub_withReals : (s.withReals x).sub (s.withReals y) = .ok (s.withReals (x - y)) := by
  unfold sub
  rw [zipWith_eq_ok _ (by simp)]
  simp only [leaves_withReals, withLeaves_withReals, zipWith_vector real_sub]
  rfl

theorem scale_withReals (c : ℝ) : (s.withReals x).scale (real c) = s.withReals (c • x) := by
  unfold scale map
  rw [leaves_withReals, withLeaves_withReals, map_vector (real_mul c)]
  rfl

theorem withReals_zero : s.withReals 0 = s.zeros := by
  have hzeros : vector (0 : Fin s.size → ℝ) = s.leaves.map fun _ => 0 := by
    simp [vector, leaves_length]
  rw [withReals, hzeros]
  rfl

@[simp] theorem skeleton_withReals : (s.withReals x).skeleton = s.skeleton :=
  skeleton_withLeaves s _

variable {s} in
/-- A unit tree is a unit vector, in any tree of the skeleton. -/
theorem unit_of_skeleton {t : Tree κ Exact} (h : t.skeleton = s.skeleton) (j : Fin s.size) :
    t.unit j = s.withReals (Pi.single j 1) := by
  refine eq_of_skeleton_of_leaves ?_ ?_
  · rw [skeleton_withReals, ← h]
    exact skeleton_withLeaves t _
  · rw [leaves_unit, leaves_withReals, size_eq_of_skeleton h]
    apply List.ext_getElem
    · simp
    · intro i h₁ h₂
      simp only [List.getElem_map, List.getElem_range, vector_getElem, Pi.single_apply, zero_eq,
        one_eq, apply_ite real, Fin.ext_iff]

end Reals

end Tree

end LeastSquares
