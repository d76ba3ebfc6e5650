import LeastSquares.Proofs.Representation.Flat
import LeastSquares.Residual.Basic

/-!
# Linear solves on the flat form

Two residuals correspond over a tree when they answer the same leaves at every tree of its skeleton
and at the flat form of that tree, and so do their derivatives; how the answers are structured does
not matter. Corresponding linearizations have one matrix, and solving against it gives a tree on one
side and its flat form on the other, with one status.
-/

namespace LeastSquares

open LeastSquares.Tree

variable {κ α Aux : Type}

/-- The same leaves with the same auxiliary output. -/
def SameLeaves (r r' : Tree κ α × Aux) : Prop := r'.1.leaves = r.1.leaves ∧ r'.2 = r.2

/-- Two residuals that agree on the leaves, over the trees of one skeleton and their flat forms. -/
structure Residual.Corresponds (skeleton : Tree κ Unit) (residual residual' : Residual κ α Aux) :
    Prop where
  value : ∀ t, t.skeleton = skeleton →
    Outcome.Related Eq SameLeaves (residual.value t) (residual'.value t.flat)
  tangent : ∀ t v, t.skeleton = skeleton → v.skeleton = skeleton →
    Outcome.Related Eq (fun u u' => u'.leaves = u.leaves)
      (residual.tangent t v) (residual'.tangent t.flat v.flat)

/-- Two linearizations that agree on the leaves. -/
structure Linearization.Corresponds (skeleton : Tree κ Unit)
    (linear linear' : Linearization κ α Aux) : Prop where
  value : linear'.value.leaves = linear.value.leaves
  tangent : ∀ v, v.skeleton = skeleton →
    Outcome.Related Eq (fun u u' => u'.leaves = u.leaves)
      (linear.tangent v) (linear'.tangent v.flat)
  aux : linear'.aux = linear.aux

theorem Residual.Corresponds.linearize {skeleton : Tree κ Unit}
    {residual residual' : Residual κ α Aux} (h : Residual.Corresponds skeleton residual residual')
    {y : Tree κ α} (hy : y.skeleton = skeleton) :
    Outcome.Related Eq (Linearization.Corresponds skeleton)
      (residual.linearize y) (residual'.linearize y.flat) :=
  (h.value y hy).bind fun _ _ hr =>
    .ok ⟨hr.1, fun v hv => h.tangent y v hy hv, hr.2⟩

theorem Residual.Corresponds.auxAt {skeleton : Tree κ Unit} {residual residual' : Residual κ α Aux}
    (h : Residual.Corresponds skeleton residual residual') {y : Tree κ α}
    (hy : y.skeleton = skeleton) : residual'.auxAt y.flat = residual.auxAt y := by
  refine (Outcome.Related.eq ?_).symm
  exact (h.value y hy).bind fun r r' hr => .ok hr.2.symm

section Operator

variable [Scalar α] {skeleton : Tree κ Unit} {linear linear' : Linearization κ α Aux} {y : Tree κ α}

theorem Residual.Corresponds.objective {residual residual' : Residual κ α Aux}
    (h : Residual.Corresponds skeleton residual residual') (hy : y.skeleton = skeleton) :
    residual'.objective y.flat = residual.objective y := by
  refine (Outcome.Related.eq ?_).symm
  exact (h.value y hy).bind fun r r' hr => .ok (by simp [sumSquares, hr.1, hr.2])

/-- Derivatives with the same leaves have the same matrix. -/
theorem materialize_flat (h : linear.Corresponds skeleton linear') (hy : y.skeleton = skeleton) :
    materialize linear'.tangent y.flat linear'.value = materialize linear.tangent y linear.value := by
  have hsize : linear'.value.size = linear.value.size := by
    rw [← leaves_length, h.value, leaves_length]
  have hcolumn : columnOf linear'.tangent y.flat linear'.value.size =
      columnOf linear.tangent y linear.value.size := by
    funext j
    refine (Outcome.Related.eq ?_).symm
    unfold columnOf
    rw [hsize, ← flat_unit]
    refine (h.tangent (y.unit j) ((skeleton_unit y j).trans hy)).bind fun u u' hu => ?_
    rw [hu]
    exact .of_eq rfl
  unfold materialize
  rw [hcolumn, hsize, size_flat]

/-- Solutions with the same status, on a tree and on its flat form. -/
def LinearSolutionsCorrespond (skeleton : Tree κ Unit)
    (solution solution' : LinearOperator.Solution κ α) : Prop :=
  FlatOver skeleton solution.value solution'.value ∧ solution'.status = solution.status

/-- Operators with one matrix over corresponding domains are solved alike. -/
theorem solve_flat [Dense.Kernels α] {operator operator' : LinearOperator κ α} {v v' : Tree κ α}
    (hmatrix : operator'.matrix = operator.matrix) (htags : operator'.tags = operator.tags)
    (hdomain : FlatOver skeleton operator.domain operator'.domain) (hv : v'.leaves = v.leaves)
    (strategy : Dense.Strategy) :
    Outcome.Related Eq (LinearSolutionsCorrespond skeleton)
      (operator.solve v strategy) (operator'.solve v' strategy) := by
  unfold LinearOperator.solve
  rw [hmatrix, htags, hv, hdomain.eq_flat]
  refine Outcome.Related.bind (.of_eq rfl) ?_
  rintro a _ rfl
  match Dense.solve strategy a v.leaves operator.tags with
  | .ok x =>
      refine Outcome.Related.bind (Checked.toOutcome_related (rebuild_flat operator.domain x)) ?_
      intro t t' ht
      exact .ok ⟨⟨ht.skeleton_eq.trans hdomain.skeleton_eq, ht.eq_flat⟩, rfl⟩
  | .error (.broken fault) => exact .error rfl
  | .error (.reported report) =>
      dsimp only
      cases Status.ofCause? report.cause with
      | some status =>
          exact .ok ⟨⟨(skeleton_fill _ _).trans hdomain.skeleton_eq, (flat_fill _ _).symm⟩, rfl⟩
      | none => exact .error rfl

end Operator

end LeastSquares
