import Mathlib.LinearAlgebra.Matrix.ToLin
import LeastSquares.Proofs.Dense.OperatorEnds
import LeastSquares.Proofs.Exact.Backtracking
import LeastSquares.Proofs.Exact.DenseSolve
import LeastSquares.Proofs.Operator.UnitImages

/-!
# Linear maps of trees and their matrices

A map of trees is linear if, on real trees, it takes sums to sums and multiples to multiples, and answers
trees of one skeleton. Such a map is a matrix over the leaves, since every vector of leaves is a
combination of unit vectors. The matrix that is made of its images of the unit trees is this one, however
the trees are nested: its product with the leaves of a tree has the leaves of the image of the tree
(`materialize_linear`).

An operator that was made of a matrix is linear, and its images of the unit trees give the matrix back.
-/

namespace LeastSquares

open Matrix Exact LeastSquares.Tree

variable {κ : Type} {m n : Nat}

theorem Tree.withReals_injective {s : Tree κ Exact} {x y : Fin s.size → ℝ}
    (h : s.withReals x = s.withReals y) : x = y := by
  have hleaves := congrArg leaves h
  rw [leaves_withReals, leaves_withReals] at hleaves
  exact vector_injective hleaves

/-- A dense matrix of finite numbers is a matrix of real numbers. -/
theorem exists_toDense {a : DenseMatrix Exact} (hrows : a.nrows = m) (hcols : a.ncols = n)
    (h : a.allFinite = true) : ∃ A : Matrix (Fin m) (Fin n) ℝ, a = toDense A := by
  subst hrows hcols
  have hentry (i : Fin a.nrows) (j : Fin a.ncols) : ∃ x, a.entry i j = real x :=
    isFinite_iff.mp (Dense.allFinite_iff.mp h i i.isLt j j.isLt)
  choose A hA using hentry
  refine ⟨A, DenseMatrix.ext_entry rfl rfl fun i j hi hj => ?_⟩
  rw [hA ⟨i, hi⟩ ⟨j, hj⟩, readsMatrix_toDense A i j, extend_val A ⟨i, hi⟩ ⟨j, hj⟩]

namespace LinearOperator

/-- The operator is linear: real trees of its domain go to real trees of its codomain, a sum to the sum
of the images, and a multiple to the multiple of the image. -/
structure IsLinear (operator : LinearOperator κ Exact) : Prop where
  answers {t : Tree κ Exact} (ht : IsReal operator.domain t) :
    ∃ image, operator.apply t = .ok image ∧ IsReal operator.codomain image
  add {t u v image image' : Tree κ Exact} (ht : IsReal operator.domain t)
    (hu : IsReal operator.domain u) (hv : t.add u = .ok v) (h : operator.apply t = .ok image)
    (h' : operator.apply u = .ok image') : operator.apply v = image.add image'
  scale {t image : Tree κ Exact} (c : ℝ) (ht : IsReal operator.domain t)
    (h : operator.apply t = .ok image) :
    operator.apply (t.scale (real c)) = .ok (image.scale (real c))

variable {operator : LinearOperator κ Exact}

/-- A matrix gives the images of all real trees. -/
def HasMatrix (operator : LinearOperator κ Exact)
    (A : Matrix (Fin operator.codomain.size) (Fin operator.domain.size) ℝ) : Prop :=
  ∀ v, operator.apply (operator.domain.withReals v) = .ok (operator.codomain.withReals (A *ᵥ v))

theorem HasMatrix.actsAs {A : Matrix (Fin operator.codomain.size) (Fin operator.domain.size) ℝ}
    (h : operator.HasMatrix A) : ActsAs operator.apply operator.domain A :=
  fun v => ⟨_, h v, leaves_withReals _ _⟩

/-- **Linear maps are matrices.** -/
theorem isLinear_iff_exists_matrix : operator.IsLinear ↔ ∃ A, operator.HasMatrix A := by
  constructor
  · intro h
    have himage (v : Fin operator.domain.size → ℝ) :
        ∃ w, operator.apply (operator.domain.withReals v) = .ok (operator.codomain.withReals w) := by
      obtain ⟨image, happly, w, rfl⟩ := h.answers ⟨v, rfl⟩
      exact ⟨w, happly⟩
    choose f hf using himage
    have hadd (v w : Fin operator.domain.size → ℝ) : f (v + w) = f v + f w := by
      have hsum := h.add ⟨v, rfl⟩ ⟨w, rfl⟩ (add_withReals _ v w) (hf v) (hf w)
      rw [hf, add_withReals] at hsum
      exact withReals_injective (Except.ok.inj hsum)
    have hsmul (c : ℝ) (v : Fin operator.domain.size → ℝ) : f (c • v) = c • f v := by
      have hmultiple := h.scale c ⟨v, rfl⟩ (hf v)
      rw [scale_withReals, hf, scale_withReals] at hmultiple
      exact withReals_injective (Except.ok.inj hmultiple)
    refine ⟨LinearMap.toMatrix' ⟨⟨f, hadd⟩, hsmul⟩, fun v => ?_⟩
    rw [LinearMap.toMatrix'_mulVec]
    exact hf v
  · rintro ⟨A, hA⟩
    constructor
    · rintro _ ⟨v, rfl⟩
      exact ⟨_, hA v, A *ᵥ v, rfl⟩
    · rintro _ _ _ _ _ ⟨v, rfl⟩ ⟨w, rfl⟩ hsum h h'
      rw [add_withReals] at hsum
      cases hsum
      cases (hA v).symm.trans h
      cases (hA w).symm.trans h'
      rw [hA, mulVec_add, add_withReals]
    · rintro _ _ c ⟨v, rfl⟩ h
      cases (hA v).symm.trans h
      rw [scale_withReals, hA, mulVec_smul, scale_withReals]

/-- The images of the unit trees give the matrix of a linear map. -/
theorem HasMatrix.materialize {A : Matrix (Fin operator.codomain.size) (Fin operator.domain.size) ℝ}
    (h : operator.HasMatrix A) :
    materialize operator.apply operator.domain operator.codomain = .ok (toDense A) :=
  materialize_of_actsAs h.actsAs rfl rfl

/-- An operator that was made of a matrix of real numbers has this matrix. -/
theorem hasMatrix_ofMatrix {a : DenseMatrix Exact} {domain codomain : Tree κ Exact} {tags : Tags}
    (h : ofMatrix? a domain codomain tags = .ok operator) (hfinite : a.allFinite = true) :
    ∃ A, operator.HasMatrix A ∧ a = toDense A := by
  obtain ⟨hrows, hcols, happly, -⟩ := of_ofMatrix h
  obtain ⟨A, rfl⟩ := exists_toDense hrows hcols hfinite
  refine ⟨A, fun v => ?_, rfl⟩
  have hlength : (vector v).length = (toDense A).ncols := vector_length v
  rw [happly, applyMatrix, leaves_withReals, mulVec_toDense]
  simp only [hlength, rebuild_eq_ok _ (vector_length _), withReals]
  rfl

theorem isLinear_ofMatrix {a : DenseMatrix Exact} {domain codomain : Tree κ Exact} {tags : Tags}
    (h : ofMatrix? a domain codomain tags = .ok operator) (hfinite : a.allFinite = true) :
    operator.IsLinear := by
  obtain ⟨A, hA, -⟩ := hasMatrix_ofMatrix h hfinite
  exact isLinear_iff_exists_matrix.mpr ⟨A, hA⟩

/-- **The matrix of a linear map.** The images of the unit trees of a linear operator make up a matrix,
with a row for each leaf of the codomain and a column for each leaf of the domain, and for every real tree
of the domain the product with its leaves is the leaves of its image, however the two trees are nested. An
operator that was made of a matrix of real numbers is linear, and the images of its unit trees make up its
own matrix again. -/
theorem materialize_linear :
    (∀ operator : LinearOperator κ Exact, operator.IsLinear →
      ∃ a, materialize operator.apply operator.domain operator.codomain = .ok a ∧
        a.nrows = operator.codomain.size ∧ a.ncols = operator.domain.size ∧
        ∀ t, IsReal operator.domain t →
          ∃ image, operator.apply t = .ok image ∧ a.mulVec t.leaves = image.leaves) ∧
    ∀ (a : DenseMatrix Exact) (domain codomain : Tree κ Exact) (tags : Tags)
      (operator : LinearOperator κ Exact), ofMatrix? a domain codomain tags = .ok operator →
      a.allFinite = true →
      operator.IsLinear ∧ operator.matrix = .ok a ∧
        materialize operator.apply operator.domain operator.codomain = operator.matrix := by
  constructor
  · intro operator hlinear
    obtain ⟨A, hA⟩ := isLinear_iff_exists_matrix.mp hlinear
    refine ⟨toDense A, hA.materialize, rfl, rfl, ?_⟩
    rintro _ ⟨v, rfl⟩
    refine ⟨_, hA v, ?_⟩
    rw [leaves_withReals, leaves_withReals, mulVec_toDense]
  · intro a domain codomain tags operator hmade hfinite
    have hlinear := isLinear_ofMatrix hmade hfinite
    have hmatrix := (of_ofMatrix hmade).2.2.2
    obtain ⟨A, hA, rfl⟩ := hasMatrix_ofMatrix hmade hfinite
    exact ⟨hlinear, hmatrix, hA.materialize.trans hmatrix.symm⟩

section Regroup

/-- The second and the third leaf added up, before the first one. -/
noncomputable def regroup : LinearOperator Unit Exact :=
  ofFunction
    (fun t =>
      match t with
      | .tuple [.scalar a, .array _ [b, c]] => .ok (.keyed () [.scalar (b + c), .array .fixed [a]])
      | t => .error (.leafCount 3 t.size))
    beside (.keyed () [.scalar 0, .array .fixed [0]]) {}

/-- The matrix of the regrouping. -/
def regroupMatrix : Matrix (Fin 2) (Fin 3) ℝ := !![0, 1, 1; 1, 0, 0]

theorem apply_regroup (v : Fin 3 → ℝ) : regroup.apply (beside.withReals v) =
    .ok (regroup.codomain.withReals (![v 1 + v 2, v 0] : Fin 2 → ℝ)) := rfl

theorem regroup_hasMatrix : regroup.HasMatrix regroupMatrix := by
  intro v
  change Fin 3 → ℝ at v
  have hproduct : regroupMatrix *ᵥ v = ![v 1 + v 2, v 0] := by
    ext i
    fin_cases i <;> simp [regroupMatrix, mulVec, dotProduct, Fin.sum_univ_three]
  exact (apply_regroup v).trans
    (congrArg (fun w => Except.ok (regroup.codomain.withReals w)) hproduct.symm)

/-- The regrouping takes one, two and three to five and one, and so does the matrix of the images of its
unit trees; the matrix is the one of the operator that is made of it. -/
theorem materialize_linear_regroup :
    (∃ a, materialize regroup.apply beside regroup.codomain = .ok a ∧
      a.mulVec [real 1, real 2, real 3] = [real 5, real 1]) ∧
    ∃ operator, ofMatrix? (toDense regroupMatrix) beside regroup.codomain {} = .ok operator ∧
      materialize operator.apply operator.domain operator.codomain = .ok (toDense regroupMatrix) := by
  obtain ⟨hlinear, hmade⟩ := materialize_linear (κ := Unit)
  constructor
  · obtain ⟨a, hmatrix, -, -, hproduct⟩ :=
      hlinear regroup (isLinear_iff_exists_matrix.mpr ⟨_, regroup_hasMatrix⟩)
    obtain ⟨image, happly, himage⟩ := hproduct _ ⟨(![1, 2, 3] : Fin 3 → ℝ), rfl⟩
    cases (apply_regroup ![1, 2, 3]).symm.trans happly
    refine ⟨a, hmatrix, himage.trans ?_⟩
    show [real (2 + 3), real 1] = _
    norm_num
  · refine ⟨_, rfl, ?_⟩
    obtain ⟨-, hmatrix, hagree⟩ := hmade (toDense regroupMatrix) beside regroup.codomain {} _ rfl
      (Dense.allFinite_toDense _)
    exact hagree.trans hmatrix

end Regroup

end LinearOperator

end LeastSquares
