import LeastSquares.Proofs.Dense.Admission
import LeastSquares.Proofs.Exact.SingleUnknown

/-!
# Refusals of a wrong call

A refusal says that the solver was called wrongly if its cause is not about the numbers. Whether a
factorization says so depends on the shape of its matrix alone, since it looks at the shape first. A
dense solve looks at the right-hand side before the factorization looks at the shape. So a right-hand
side with an entry that is not a finite number hides that the factorization does not take the shape,
although it hides neither its own length nor a strategy that selects no factorization
(`isMisuse_solve_iff`). Two solves of one shape say the same about the call unless the right-hand side
of just one of them hides a misfit in this way (`isMisuse_solve_congr_iff`).
-/

namespace LeastSquares.Dense

/-- A refusal that says that the solver was called wrongly. -/
def IsMisuse {β : Type} (outcome : Outcome Report β) : Prop :=
  ∃ report, outcome = Outcome.report report ∧ report.cause.isNumeric = false

/-- A strategy selects a factorization for a shape, be it one that takes the shape or not. -/
def Strategy.Selects (strategy : Strategy) (nrows ncols : Nat) (tags : Tags) : Prop :=
  ∃ kind, strategy.factorization nrows ncols tags = .ok kind

section Ends

variable {β γ : Type}

theorem isMisuse_report (report : Report) :
    IsMisuse (Outcome.report report : Outcome Report β) ↔ report.cause.isNumeric = false := by
  constructor
  · rintro ⟨report', heq, hmisuse⟩
    cases heq
    exact hmisuse
  · exact fun hmisuse => ⟨report, rfl, hmisuse⟩

theorem not_isMisuse_ok (answer : β) : ¬IsMisuse (.ok answer) := by
  rintro ⟨report, heq, -⟩
  cases heq

/-- A solve whose shape is admitted is no misuse. -/
theorem SolveEnds.not_isMisuse {admitted : Prop} {outcome : Outcome Report β}
    (h : SolveEnds admitted outcome) (hadmitted : admitted) : ¬IsMisuse outcome := by
  rintro ⟨report, rfl, hmisuse⟩
  cases h with
  | refused report hrefused =>
      rcases hrefused with hnumeric | ⟨-, hnot⟩
      · exact Bool.noConfusion (hmisuse.symm.trans hnumeric)
      · exact hnot hadmitted

/-- Notes and what is made of an answer do not change whether a solve is a misuse. -/
theorem isMisuse_note (solved : Outcome Report β) (note : Note) (f : β → γ) :
    IsMisuse ((solved.mapReport fun report => report.attach note).map f) ↔ IsMisuse solved := by
  cases solved with
  | ok answer => exact iff_of_false (not_isMisuse_ok _) (not_isMisuse_ok _)
  | error failure =>
      cases failure with
      | broken fault => exact iff_of_false (fun ⟨_, h, _⟩ => nomatch h) (fun ⟨_, h, _⟩ => nomatch h)
      | reported report =>
          exact (isMisuse_report (report.attach note)).trans (isMisuse_report report).symm

end Ends

section Solving

variable {α : Type} [Scalar α] [Kernels α]

/-- A shape that is not admitted is refused as such, whatever the entries are. -/
theorem factor_of_not_admits {kind : Factorization} {a : DenseMatrix α}
    (h : ¬kind.Admits a.nrows a.ncols) :
    ∃ report, factor kind a = .error report ∧ report.cause = .shapeMismatch := by
  cases kind with
  | lu => exact ⟨_, Outcome.bind_eq_error.mpr (.inl (if_neg h)), rfl⟩
  | cholesky => exact ⟨_, Outcome.bind_eq_error.mpr (.inl (if_neg h)), rfl⟩
  | qr => exact ⟨_, if_pos (Nat.lt_of_not_le h), rfl⟩
  | svd => exact absurd trivial h

/-- Factoring and solving is a misuse exactly if the shape is not admitted. -/
theorem isMisuse_solveBy (kind : Factorization) (a b : DenseMatrix α) :
    IsMisuse (solveBy kind a b) ↔ ¬kind.Admits a.nrows a.ncols := by
  constructor
  · intro hmisuse hadmits
    exact (solveBy_ends kind a b).not_isMisuse hadmits hmisuse
  · intro hnot
    obtain ⟨report, hfactor, hcause⟩ := factor_of_not_admits hnot
    refine ⟨report, ?_, ?_⟩
    · rw [solveBy, hfactor]
    · rw [hcause]
      rfl

/-- A dense solve says that it was called wrongly if the right-hand side does not fit the matrix, or if
the shape is not admitted and, where a factorization was selected, the right-hand side is finite. -/
theorem isMisuse_solve_iff (strategy : Strategy) (a : DenseMatrix α) (b : List α) (tags : Tags) :
    IsMisuse (solve strategy a b tags) ↔
      b.length ≠ a.nrows ∨
        ¬strategy.Admits a.nrows a.ncols tags ∧
          (strategy.Selects a.nrows a.ncols tags → b.all Scalar.isFinite = true) := by
  unfold solve
  by_cases hfits : b.length = a.nrows
  case neg =>
    rw [if_pos hfits]
    exact iff_of_true ((isMisuse_report _).mpr rfl) (.inl hfits)
  rw [if_neg (not_not_intro hfits), or_iff_right (not_not_intro hfits)]
  by_cases hcols : a.ncols = 0
  case pos =>
    rw [if_pos hcols]
    exact iff_of_false (not_isMisuse_ok _) fun h => h.1 (.inl hcols)
  rw [if_neg hcols]
  cases hkind : strategy.factorization a.nrows a.ncols tags with
  | error report =>
      have hnot := Strategy.not_admits_of_factorization hcols hkind
      have hnone : ¬strategy.Selects a.nrows a.ncols tags := by
        rintro ⟨kind, hsome⟩
        cases hkind.symm.trans hsome
      refine iff_of_true ((isMisuse_report report).mpr ?_) ⟨hnot, fun hsome => absurd hsome hnone⟩
      rw [cause_of_factorization hkind]
      rfl
  | ok kind =>
      have hselects : strategy.Selects a.nrows a.ncols tags := ⟨kind, hkind⟩
      rw [Strategy.admits_iff hcols hkind]
      dsimp only
      split
      · rename_i hfinite
        rw [isMisuse_note, isMisuse_solveBy]
        exact (and_iff_left fun _ => hfinite).symm
      · rename_i hinfinite
        -- The right-hand side is refused for its numbers before the shape is looked at.
        refine iff_of_false ?_ fun h => hinfinite (h.2 hselects)
        rw [isMisuse_report]
        decide

/-- **When numbers hide a wrong call.** Two dense solves with matrices of one shape and right-hand
sides of one length are either both refused as wrong calls or neither of them is, except in one case:
the right-hand sides fit, a factorization is selected that does not take the shape, and just one of the
right-hand sides is finite. The entries of the matrices never matter. -/
theorem isMisuse_solve_congr_iff (strategy : Strategy) (tags : Tags) (a a' : DenseMatrix α)
    (b b' : List α) (hrows : a'.nrows = a.nrows) (hcols : a'.ncols = a.ncols)
    (hlength : b'.length = b.length) :
    (IsMisuse (solve strategy a b tags) ↔ IsMisuse (solve strategy a' b' tags)) ↔
      (b.length = a.nrows → strategy.Selects a.nrows a.ncols tags →
        ¬strategy.Admits a.nrows a.ncols tags →
          b.all Scalar.isFinite = b'.all Scalar.isFinite) := by
  rw [isMisuse_solve_iff, isMisuse_solve_iff, hrows, hcols, hlength]
  by_cases hfits : b.length = a.nrows
  case neg => simp [hfits]
  by_cases hselects : strategy.Selects a.nrows a.ncols tags
  case neg => simp [hselects]
  by_cases hadmits : strategy.Admits a.nrows a.ncols tags
  case pos => simp [hadmits]
  simp only [hfits, hselects, hadmits, ne_eq, not_true_eq_false, not_false_eq_true, false_or, true_and,
    forall_const]
  exact Bool.eq_iff_iff.symm

end Solving

section Column

open Exact

/-- A column of two ones is no matrix for triangular factors; a right-hand side with an entry that is
no number hides it. -/
theorem isMisuse_solve_congr_iff_column :
    let ones : DenseMatrix Exact := .ofFn 2 1 fun _ _ => 1
    ¬(IsMisuse (solve .lu ones [nan, 1] {}) ↔ IsMisuse (solve .lu ones [1, 1] {})) := by
  intro ones hagree
  have hselects : Strategy.lu.Selects ones.nrows ones.ncols {} := ⟨.lu, rfl⟩
  have hnot : ¬Strategy.lu.Admits ones.nrows ones.ncols {} := by
    rw [Strategy.admits_iff (by decide) rfl]
    exact (by decide : ¬(2 = 1))
  have hsame := (isMisuse_solve_congr_iff .lu {} ones ones [nan, 1] [1, 1] rfl rfl rfl).mp hagree rfl
    hselects hnot
  simp at hsame

end Column

end LeastSquares.Dense
