import LeastSquares.Proofs.Iteration.Faultless

/-!
# The ends of a solve against an operator

A dense solve answers an entry for each unknown, refuses the numbers, or refuses the shape; it never
says that nothing was factored. Against an operator these three come out as a solution of finite leaves,
as a solution without numbers that has the status of the failure, and as an error. An operator that was
made of a matrix, or of a function whose images have the size of its codomain, has a matrix with a column
for each leaf of its domain, so an answer is always read out into the domain.

So a solve ends in exactly one of three ways, and the dense solve of the matrix decides in which
(`solve_ends_once`).
-/

namespace LeastSquares

open LeastSquares.Tree Outcome

variable {κ α : Type} [Scalar α]

/-- A failure of the numbers is singular, broken down or not finite. -/
theorem Status.ofCause?_eq_some {cause : Dense.Cause} (h : cause.isNumeric = true) :
    ∃ status, Status.ofCause? cause = some status ∧
      (status = .singular ∨ status = .breakdown ∨ status = .nonFiniteInput) := by
  cases cause with
  | notFactored | shapeMismatch => cases h
  | nonFiniteInput => exact ⟨_, rfl, .inr (.inr rfl)⟩
  | singular => exact ⟨_, rfl, .inl rfl⟩
  | notPositiveDefinite | decomposition => exact ⟨_, rfl, .inr (.inl rfl)⟩

namespace LinearOperator

/-- An operator that was made of a matrix takes the product with it. -/
theorem of_ofMatrix {a : DenseMatrix α} {domain codomain : Tree κ α} {tags : Tags}
    {operator : LinearOperator κ α} (h : ofMatrix? a domain codomain tags = .ok operator) :
    a.nrows = operator.codomain.size ∧ a.ncols = operator.domain.size ∧
      operator.apply = applyMatrix a operator.codomain ∧ operator.matrix = .ok a := by
  unfold ofMatrix? at h
  split at h
  · cases h
  split at h
  · cases h
  rename_i hrows hcols
  cases h
  exact ⟨not_not.mp hrows, not_not.mp hcols, rfl, rfl⟩

/-- An operator that was made of a matrix, or of a function whose images have as many leaves as the
codomain has. -/
inductive IsSized : LinearOperator κ α → Prop
  | ofMatrix {a : DenseMatrix α} {domain codomain : Tree κ α} {tags : Tags}
      {operator : LinearOperator κ α} (h : ofMatrix? a domain codomain tags = .ok operator) :
      IsSized operator
  | ofFunction {apply : Tree κ α → Checked (Tree κ α)} {domain codomain : Tree κ α} {tags : Tags}
      (h : ∀ t, t.skeleton = domain.skeleton →
        ∃ image, apply t = .ok image ∧ image.size = codomain.size) :
      IsSized (ofFunction apply domain codomain tags)

/-- Such an operator has a matrix, with a row for each leaf of the codomain and a column for each leaf of
the domain. -/
theorem IsSized.exists_matrix {operator : LinearOperator κ α} (h : operator.IsSized) :
    ∃ a, operator.matrix = .ok a ∧ a.nrows = operator.codomain.size ∧
      a.ncols = operator.domain.size := by
  cases h with
  | ofMatrix hmade =>
      obtain ⟨hrows, hcols, -, hmatrix⟩ := of_ofMatrix hmade
      exact ⟨_, hmatrix, hrows, hcols⟩
  | ofFunction himages => exact materialize_of_shape himages rfl rfl

/-- The three ways in which a solve against an operator ends. -/
inductive Ending
  /-- A successful solution of finite leaves. -/
  | solved
  /-- A failure of the numbers: no leaf of the solution is a number. -/
  | failed
  /-- An error that says that the shape did not fit. -/
  | misused
deriving DecidableEq, Repr

/-- What a solve gives that ends in this way. -/
def Ending.Describes (domain : Tree κ α) (ending : Ending)
    (outcome : Outcome Error (Solution κ α)) : Prop :=
  match ending with
  | .solved =>
      ∃ value, outcome = .ok ⟨value, .successful⟩ ∧ value.skeleton = domain.skeleton ∧
        ∀ x ∈ value.leaves, Scalar.isFinite x = true
  | .failed =>
      ∃ value status, outcome = .ok ⟨value, status⟩ ∧
        (status = .singular ∨ status = .breakdown ∨ status = .nonFiniteInput) ∧
        value.skeleton = domain.skeleton ∧ ∀ x ∈ value.leaves, x = Scalar.nan
  | .misused =>
      ∃ report, outcome = Outcome.report (.linearSolver report) ∧ report.cause = .shapeMismatch

/-- No solve ends in two of the ways. -/
theorem Ending.Describes.unique {domain : Tree κ α} {outcome : Outcome Error (Solution κ α)}
    {ending other : Ending} (h : ending.Describes domain outcome)
    (hother : other.Describes domain outcome) : other = ending := by
  cases ending with
  | solved =>
      obtain ⟨value, rfl, -⟩ := h
      cases other with
      | solved => rfl
      | failed =>
          obtain ⟨_, _, heq, hstatus, -⟩ := hother
          cases heq
          rcases hstatus with h | h | h <;> cases h
      | misused =>
          obtain ⟨_, heq, -⟩ := hother
          cases heq
  | failed =>
      obtain ⟨value, status, rfl, hstatus, -⟩ := h
      cases other with
      | solved =>
          obtain ⟨_, heq, -⟩ := hother
          cases heq
          rcases hstatus with h | h | h <;> cases h
      | failed => rfl
      | misused =>
          obtain ⟨_, heq, -⟩ := hother
          cases heq
  | misused =>
      obtain ⟨report, rfl, -⟩ := h
      cases other with
      | solved =>
          obtain ⟨_, heq, -⟩ := hother
          cases heq
      | failed =>
          obtain ⟨_, _, heq, -⟩ := hother
          cases heq
      | misused => rfl

theorem Ending.Describes.iff_eq {domain : Tree κ α} {outcome : Outcome Error (Solution κ α)}
    {ending : Ending} (h : ending.Describes domain outcome) (other : Ending) :
    other.Describes domain outcome ↔ other = ending :=
  ⟨h.unique, fun heq => heq ▸ h⟩

variable [Dense.Kernels α] {operator : LinearOperator κ α} {a : DenseMatrix α} {vector : Tree κ α}
  {strategy : Dense.Strategy} (hmatrix : operator.matrix = .ok a)

section Ends

include hmatrix

/-- An answer of finite entries is a solution. -/
theorem solved_of_answer {x : List α}
    (h : Dense.solve strategy a vector.leaves operator.tags = .ok x)
    (hlength : x.length = operator.domain.size) (hfinite : ∀ entry ∈ x, Scalar.isFinite entry = true) :
    Ending.solved.Describes operator.domain (operator.solve vector strategy) := by
  refine ⟨_, solve_of_answer hmatrix h hlength, skeleton_withLeaves _ x, ?_⟩
  rwa [leaves_withLeaves operator.domain hlength]

/-- A refusal of the numbers fills the domain with what is no number. -/
theorem failed_of_numeric {report : Dense.Report}
    (h : Dense.solve strategy a vector.leaves operator.tags = Outcome.report report)
    (hnumeric : report.cause.isNumeric = true) :
    Ending.failed.Describes operator.domain (operator.solve vector strategy) := by
  obtain ⟨status, hcause, hstatus⟩ := Status.ofCause?_eq_some hnumeric
  have hsolve : operator.solve vector strategy =
      .ok ⟨operator.domain.fill Scalar.nan, status⟩ := by
    simp only [solve, hmatrix, h, hcause, Outcome.report, Outcome.liftM_eq_toOutcome,
      Checked.toOutcome_ok, Outcome.ok_bind, Outcome.pure_eq_ok]
  refine ⟨_, status, hsolve, hstatus, skeleton_fill operator.domain _, fun x hx => ?_⟩
  rw [leaves_fill] at hx
  exact List.eq_of_mem_replicate hx

/-- A refusal of the shape is passed on. -/
theorem misused_of_misfit {report : Dense.Report}
    (h : Dense.solve strategy a vector.leaves operator.tags = Outcome.report report)
    (hshape : report.cause = .shapeMismatch) :
    Ending.misused.Describes operator.domain (operator.solve vector strategy) := by
  have hcause : Status.ofCause? report.cause = none := by
    rw [hshape]
    rfl
  have hsolve : operator.solve vector strategy = Outcome.report (.linearSolver report) := by
    simp only [solve, hmatrix, h, hcause, Outcome.report, Outcome.liftM_eq_toOutcome,
      Checked.toOutcome_ok, Outcome.ok_bind]
  exact ⟨report, hsolve, hshape⟩

end Ends

/-- **The ends of a solve against an operator.** An operator made of a matrix, or of a function whose
images have the size of its codomain, has a matrix of the size of its codomain by the size of its domain.
For every right-hand side and strategy a solve ends in exactly one of three ways, none of which is a
fault: solved, when the dense solve of the matrix answers; misused, when the dense solve refuses the
call; and failed, when it refuses the numbers. -/
theorem solve_ends_once [Dense.Kernels.LawfulSvd α] {operator : LinearOperator κ α}
    (h : operator.IsSized) (vector : Tree κ α) (strategy : Dense.Strategy) :
    ∃ a, operator.matrix = .ok a ∧ a.nrows = operator.codomain.size ∧
      a.ncols = operator.domain.size ∧
      (∃! ending : Ending, ending.Describes operator.domain (operator.solve vector strategy)) ∧
      (Ending.solved.Describes operator.domain (operator.solve vector strategy) ↔
        ∃ x, Dense.solve strategy a vector.leaves operator.tags = .ok x) ∧
      (Ending.misused.Describes operator.domain (operator.solve vector strategy) ↔
        Dense.IsMisuse (Dense.solve strategy a vector.leaves operator.tags)) := by
  obtain ⟨a, hmatrix, hrows, hcols⟩ := h.exists_matrix
  refine ⟨a, hmatrix, hrows, hcols, ?_⟩
  have hsettles := Dense.solve_settles strategy a vector.leaves operator.tags
  -- Each end of the dense solve is one of the ways, which then is the only one.
  generalize hdense : Dense.solve strategy a vector.leaves operator.tags = solved at hsettles
  cases hsettles with
  | answered x hlength hfinite =>
      have hends := solved_of_answer hmatrix hdense (hlength.trans hcols) hfinite
      rw [hends.iff_eq, hends.iff_eq]
      refine ⟨⟨.solved, hends, fun _ => hends.unique⟩, iff_of_true rfl ⟨x, rfl⟩, ?_⟩
      exact iff_of_false (by decide) (Dense.not_isMisuse_ok x)
  | numeric report hnumeric =>
      have hends := failed_of_numeric hmatrix hdense hnumeric
      rw [hends.iff_eq, hends.iff_eq, Dense.isMisuse_report, hnumeric]
      refine ⟨⟨.failed, hends, fun _ => hends.unique⟩, iff_of_false (by decide) ?_, by decide⟩
      rintro ⟨x, heq⟩
      cases heq
  | misfit report hshape =>
      have hends := misused_of_misfit hmatrix hdense hshape
      rw [hends.iff_eq, hends.iff_eq, Dense.isMisuse_report, hshape]
      refine ⟨⟨.misused, hends, fun _ => hends.unique⟩, iff_of_false (by decide) ?_, by decide⟩
      rintro ⟨x, heq⟩
      cases heq

section SingleUnknown

open Matrix Exact

/-- The operator of a matrix with one entry. -/
noncomputable def ofSingle (a : ℝ) : LinearOperator Unit Exact :=
  ⟨.scalar 0, .scalar 0, {}, applyMatrix (single (real a)) (.scalar 0), .ok (single (real a))⟩

theorem isSized_ofSingle (a : ℝ) : (ofSingle a).IsSized := by
  have hmade : ofMatrix? (single (real a)) (.scalar 0) (.scalar 0) {} = .ok (ofSingle a) := by
    have hrows : (single (real a)).nrows = (Tree.scalar 0 : Tree Unit Exact).size := rfl
    have hcols : (single (real a)).ncols = (Tree.scalar 0 : Tree Unit Exact).size := rfl
    rw [ofMatrix?, if_neg (not_not_intro hrows), if_neg (not_not_intro hcols)]
    rfl
  exact .ofMatrix hmade

/-- The matrix two takes three to six, so it is solved; the matrix zero fails; and a right-hand side
with one leaf too many is a misuse of the identity. -/
theorem solve_ends_once_single :
    Ending.solved.Describes (.scalar 0) ((ofSingle 2).solve (.scalar (real 6)) .standard) ∧
      Ending.failed.Describes (.scalar 0) ((ofSingle 0).solve (.scalar (real 6)) .standard) ∧
      Ending.misused.Describes (.scalar 0)
        ((ofFunction .ok (.scalar 0) (.scalar 0) {} : LinearOperator Unit Exact).solve
          (.array .growable [0, 0]) .standard) := by
  have hdense (a : ℝ) : toDense (fun _ _ : Fin 1 => a) = single (real a) := toDense_eq_single _
  have hvector : vector (fun _ : Fin 1 => (6 : ℝ)) = [real 6] := vector_one _
  refine ⟨?_, ?_, ?_⟩
  · obtain ⟨a, hmatrix, -, -, -, hsolved, -⟩ :=
      solve_ends_once (isSized_ofSingle 2) (.scalar (real 6)) .standard
    cases hmatrix
    have hdivided := solve_single (A := fun _ _ : Fin 1 => 2) two_ne_zero fun _ => 6
    rw [hdense, hvector] at hdivided
    exact hsolved.mpr ⟨_, hdivided⟩
  · obtain ⟨a, hmatrix, -, -, ⟨ending, hends, -⟩, hsolved, hmisused⟩ :=
      solve_ends_once (isSized_ofSingle 0) (.scalar (real 6)) .standard
    cases hmatrix
    have hrefused := solve_single_zero (A := fun _ _ : Fin 1 => 0) rfl fun _ => 6
    rw [hdense, hvector] at hrefused
    have hdenseSolve : Dense.solve .standard (single (real 0))
        (Tree.scalar (real 6) : Tree Unit Exact).leaves (ofSingle 0).tags = _ := hrefused
    rw [hdenseSolve] at hsolved hmisused
    cases ending with
    | solved =>
        obtain ⟨x, heq⟩ := hsolved.mp hends
        cases heq
    | failed => exact hends
    | misused =>
        have hnumeric := (Dense.isMisuse_report _).mp (hmisused.mp hends)
        cases hnumeric
  · have hsized : (ofFunction .ok (.scalar 0) (.scalar 0) {} : LinearOperator Unit Exact).IsSized :=
      .ofFunction fun t ht => ⟨t, rfl, size_eq_of_skeleton ht⟩
    obtain ⟨a, -, hrows, -, -, -, hmisused⟩ :=
      solve_ends_once hsized (.array .growable [0, 0]) .standard
    have hlength : (Tree.array .growable [0, 0] : Tree Unit Exact).leaves.length ≠ a.nrows := by
      rw [hrows]
      decide
    refine hmisused.mpr ?_
    rw [Dense.solve, if_pos hlength]
    exact (Dense.isMisuse_report _).mpr rfl

end SingleUnknown

end LinearOperator

end LeastSquares
