import LeastSquares.Proofs.Dense.Verdict
import LeastSquares.Proofs.Iteration.Misfit

/-!
# The automatic choice of a factorization

What the automatic choice selects takes the shape that it was selected for. So it takes every shape,
unless the caller declared the problem well posed and the matrix has unknowns and is not square; and a
solve against an operator calls its linear solver wrongly in this one case (`solve_auto`), whatever the
entries are and whatever is known about the matrix.
-/

namespace LeastSquares

namespace Dense.Strategy

/-- The choice looks at the shape in the way the factorizations do. -/
theorem admits_of_auto {wellPosed : Option Bool} {nrows ncols : Nat} {tags : Tags}
    {kind : Factorization}
    (h : (auto wellPosed).factorization nrows ncols tags = .ok kind) : kind.Admits nrows ncols := by
  unfold factorization at h
  split at h
  -- Only the last two cases are automatic; the first of them is a problem declared not well posed.
  case h_5 =>
    cases h
    trivial
  case h_6 =>
    split at h
    case isTrue hsquare => split at h <;> cases h <;> exact hsquare
    case isFalse =>
      split at h
      · cases h
      split at h <;> cases h
      · rename_i htall
        exact Nat.le_of_lt htall
      · trivial
  all_goals contradiction

/-- The automatic choice takes every shape unless it has to refuse it. -/
theorem admits_auto_iff (wellPosed : Option Bool) (nrows ncols : Nat) (tags : Tags) :
    (auto wellPosed).Admits nrows ncols tags ↔
      ¬(wellPosed = some true ∧ nrows ≠ ncols ∧ 0 < ncols) := by
  have hselects := (auto wellPosed).selects_iff nrows ncols tags
  rw [auto.injEq] at hselects
  constructor
  · rintro (rfl | ⟨kind, hkind, -⟩) ⟨hwellPosed, hshape, hcols⟩
    · exact absurd hcols (Nat.lt_irrefl 0)
    · exact hselects.mp ⟨kind, hkind⟩ ⟨hwellPosed, hshape⟩
  · intro h
    rcases Nat.eq_zero_or_pos ncols with hcols | hcols
    · exact .inl hcols
    · obtain ⟨kind, hkind⟩ := hselects.mpr fun hrefused => h ⟨hrefused.1, hrefused.2, hcols⟩
      exact .inr ⟨kind, hkind, admits_of_auto hkind⟩

end Dense.Strategy

variable {κ α : Type}

/-- An outcome that says that the linear solver was called wrongly. -/
def IsMisconfigured {β : Type} (outcome : Outcome Error β) : Prop :=
  ∃ report, outcome = Outcome.report (.linearSolver report)

namespace LinearOperator

open LeastSquares.Tree

variable [Scalar α] [Dense.Kernels α]

/-- A solve against an operator calls its linear solver wrongly exactly if the dense solve of its matrix
says so. -/
theorem isMisconfigured_solve_iff {operator : LinearOperator κ α} {a : DenseMatrix α}
    (hmatrix : operator.matrix = .ok a) (vector : Tree κ α) (strategy : Dense.Strategy) :
    IsMisconfigured (operator.solve vector strategy) ↔
      Dense.IsMisuse (Dense.solve strategy a vector.leaves operator.tags) := by
  unfold solve
  rw [hmatrix]
  simp only [Outcome.liftM_eq_toOutcome, Checked.toOutcome_ok, Outcome.ok_bind]
  cases Dense.solve strategy a vector.leaves operator.tags with
  | ok x =>
      -- An answer that does not fit the domain is a fault, which says nothing of the solver.
      refine iff_of_false ?_ (Dense.not_isMisuse_ok x)
      rintro ⟨report, hreport⟩
      dsimp only at hreport
      cases hrebuild : operator.domain.rebuild x with
      | ok value => rw [hrebuild] at hreport; cases hreport
      | error fault => rw [hrebuild] at hreport; cases hreport
  | error failure =>
      cases failure with
      | broken fault => exact iff_of_false (fun ⟨_, h⟩ => nomatch h) (fun ⟨_, h, _⟩ => nomatch h)
      | reported report =>
          refine Iff.trans ?_ (Dense.isMisuse_report report).symm
          rw [← ofCause?_eq_none_iff]
          dsimp only
          cases Status.ofCause? report.cause with
          | some status => exact iff_of_false (fun ⟨_, h⟩ => nomatch h) (fun h => nomatch h)
          | none => exact iff_of_true ⟨report, rfl⟩ rfl

/-- **The automatic choice fits the shape.** Whatever it selects takes the shape of the matrix. A vector
that fits the matrix is solved for without a wrong call of the linear solver, unless the problem was
declared well posed and the matrix has columns and is not square. -/
theorem solve_auto (operator : LinearOperator κ α) (vector : Tree κ α) (wellPosed : Option Bool)
    {a : DenseMatrix α} (hmatrix : operator.matrix = .ok a) (hfits : vector.size = a.nrows) :
    (∀ kind, (Dense.Strategy.auto wellPosed).factorization a.nrows a.ncols operator.tags = .ok kind →
      kind.Admits a.nrows a.ncols) ∧
    (IsMisconfigured (operator.solve vector (.auto wellPosed)) ↔
      wellPosed = some true ∧ a.nrows ≠ a.ncols ∧ 0 < a.ncols) := by
  refine ⟨fun kind => Dense.Strategy.admits_of_auto, ?_⟩
  have hlength : ¬vector.leaves.length ≠ a.nrows := not_not_intro (by rw [leaves_length, hfits])
  rw [isMisconfigured_solve_iff hmatrix, Dense.isMisuse_solve_iff, or_iff_right hlength,
    Dense.Strategy.admits_auto_iff, not_not, Dense.Strategy.selects_iff, Dense.Strategy.auto.injEq]
  constructor
  · exact fun h => h.1
  · intro h
    exact ⟨h, fun hselects => absurd ⟨h.1, h.2.1⟩ hselects⟩

section Ones

open Exact

noncomputable section

/-- The operator of a matrix of ones. -/
def ofOnes (nrows ncols : Nat) : LinearOperator Unit Exact where
  domain := .array .growable (List.replicate ncols 0)
  codomain := .array .growable (List.replicate nrows 0)
  tags := {}
  apply := applyMatrix (.ofFn nrows ncols fun _ _ => 1) (.array .growable (List.replicate nrows 0))
  matrix := .ok (.ofFn nrows ncols fun _ _ => 1)

/-- A column of ones is refused if it was declared well posed and not without a declaration; a matrix
without columns is never refused. -/
theorem solve_auto_ones :
    IsMisconfigured ((ofOnes 2 1).solve (.array .fixed [1, nan]) (.auto (some true))) ∧
      ¬IsMisconfigured ((ofOnes 2 1).solve (.array .fixed [1, nan]) (.auto none)) ∧
      ¬IsMisconfigured ((ofOnes 2 0).solve (.array .fixed [1, nan]) (.auto (some true))) := by
  have hcolumn (wellPosed : Option Bool) :=
    (solve_auto (ofOnes 2 1) (.array .fixed [1, nan]) wellPosed rfl rfl).2
  have hempty := (solve_auto (ofOnes 2 0) (.array .fixed [1, nan]) (some true) rfl rfl).2
  rw [hcolumn, hcolumn, hempty]
  decide

end

end Ones

end LinearOperator

end LeastSquares
