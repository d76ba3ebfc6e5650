import LeastSquares.Dense.Solve
import LeastSquares.Proofs.Outcome

/-!
# The shapes a solver admits

Which shapes a factorization takes is settled by its kind, and which shapes a strategy takes by the
factorization it selects. A system without unknowns is always admitted. An answer of the dense solver
certifies that the shape of its matrix is admitted. If the right-hand side fits the matrix, a refusal
is about the numbers, or else the shape is not admitted (`solve_ends`). A refusal that is about the
numbers says nothing of the shape, since a right-hand side with an entry that is not a finite number
is refused before the shape is looked at.
-/

namespace LeastSquares.Dense

/-- The shapes that a factorization takes. -/
def Factorization.Admits (kind : Factorization) (nrows ncols : Nat) : Prop :=
  match kind with
  | .lu | .cholesky => nrows = ncols
  | .qr => ncols ≤ nrows
  | .svd => True

/-- The shapes that a strategy takes. -/
def Strategy.Admits (strategy : Strategy) (nrows ncols : Nat) (tags : Tags) : Prop :=
  ncols = 0 ∨
    ∃ kind, strategy.factorization nrows ncols tags = .ok kind ∧ kind.Admits nrows ncols

/-- With unknowns, a strategy takes the shapes of the factorization it selects. -/
theorem Strategy.admits_iff {strategy : Strategy} {nrows ncols : Nat} {tags : Tags}
    {kind : Factorization} (hcols : ncols ≠ 0)
    (hkind : strategy.factorization nrows ncols tags = .ok kind) :
    strategy.Admits nrows ncols tags ↔ kind.Admits nrows ncols := by
  constructor
  · rintro (hzero | ⟨kind', hkind', hadmits⟩)
    · exact absurd hzero hcols
    · cases hkind.symm.trans hkind'
      exact hadmits
  · intro hadmits
    exact .inr ⟨kind, hkind, hadmits⟩

/-- Why a solver refused: the numbers, or a shape that is not admitted. -/
def RefusedFor (admitted : Prop) (report : Report) : Prop :=
  report.cause.isNumeric = true ∨ report.cause = .shapeMismatch ∧ ¬admitted

/-- A strategy that selects no factorization refuses the shape. -/
theorem cause_of_factorization {strategy : Strategy} {nrows ncols : Nat} {tags : Tags}
    {report : Report} (h : strategy.factorization nrows ncols tags = .error report) :
    report.cause = .shapeMismatch := by
  unfold Strategy.factorization at h
  repeat' split at h
  all_goals cases h
  rfl

/-- A strategy selects no factorization only where the shape is not admitted. -/
theorem Strategy.not_admits_of_factorization {strategy : Strategy} {nrows ncols : Nat} {tags : Tags}
    {report : Report} (hcols : ncols ≠ 0)
    (h : strategy.factorization nrows ncols tags = .error report) :
    ¬strategy.Admits nrows ncols tags := by
  rintro (hzero | ⟨kind, hkind, -⟩)
  · exact hcols hzero
  · exact nomatch h.symm.trans hkind

/-- The ends of a solve whose shape may be admitted. -/
inductive SolveEnds {β : Type} (admitted : Prop) : Outcome Report β → Prop
  | answered (answer : β) (h : admitted) : SolveEnds admitted (.ok answer)
  | refused (report : Report) (h : RefusedFor admitted report) :
      SolveEnds admitted (Outcome.report report)
  | faulted (fault : Fault) : SolveEnds admitted (.error (.broken fault))

section Factoring

variable {α : Type} {kind : Factorization} {a : DenseMatrix α} {report : Report}

theorem requireSquare_eq_ok {u : Unit} : requireSquare kind a = .ok u ↔ a.nrows = a.ncols := by
  unfold requireSquare
  split <;> simp_all

/-- The check for a square refuses a shape that is not square. -/
theorem refusedFor_of_requireSquare (h : requireSquare kind a = .error report) :
    RefusedFor (a.nrows = a.ncols) report := by
  unfold requireSquare at h
  split at h
  · cases h
  · rename_i hshape
    cases h
    exact .inr ⟨rfl, hshape⟩

variable [Scalar α]

/-- The check for finite entries refuses the numbers. -/
theorem isNumeric_of_requireFinite (h : requireFinite a = .error report) :
    report.cause.isNumeric = true := by
  unfold requireFinite at h
  split at h
  · cases h
  · cases h
    rfl

variable [Kernels α]

/-- A matrix that was factored has an admitted shape. -/
theorem admits_of_factor {factored : Factored α kind} (h : factor kind a = .ok factored) :
    kind.Admits a.nrows a.ncols := by
  cases kind with
  | lu =>
      obtain ⟨_, hsquare, -⟩ := Outcome.bind_eq_ok.mp h
      exact requireSquare_eq_ok.mp hsquare
  | cholesky =>
      obtain ⟨_, hsquare, -⟩ := Outcome.bind_eq_ok.mp h
      exact requireSquare_eq_ok.mp hsquare
  | qr =>
      simp only [factor] at h
      split at h
      · cases h
      · rename_i htall
        exact Nat.le_of_not_lt htall
  | svd => trivial

omit [Kernels α] in
/-- After the checks of a square matrix and of its entries only what follows can refuse. -/
theorem refusedFor_or_of_checks {β : Type} {rest : Except Report β}
    (h : (do
      requireSquare kind a
      requireFinite a
      rest) = .error report) :
    RefusedFor (a.nrows = a.ncols) report ∨ rest = .error report := by
  rcases Outcome.bind_eq_error.mp h with hsquare | ⟨_, -, h⟩
  · exact .inl (refusedFor_of_requireSquare hsquare)
  rcases Outcome.bind_eq_error.mp h with hfinite | ⟨_, -, hrest⟩
  · exact .inl (.inl (isNumeric_of_requireFinite hfinite))
  · exact .inr hrest

/-- A factorization refuses a matrix for its numbers, or for a shape that is not admitted. The shape
is looked at first. -/
theorem refusedFor_of_factor (h : factor kind a = .error report) :
    RefusedFor (kind.Admits a.nrows a.ncols) report := by
  cases kind with
  | lu =>
      rcases refusedFor_or_of_checks h with hchecks | hpivots
      · exact hchecks
      · dsimp only at hpivots
        split at hpivots <;> cases hpivots
        exact .inl rfl
  | cholesky =>
      rcases refusedFor_or_of_checks h with hchecks | hpivots
      · exact hchecks
      · split at hpivots <;> cases hpivots
        exact .inl rfl
  | qr =>
      simp only [factor] at h
      split at h
      · rename_i hwide
        cases h
        exact .inr ⟨rfl, Nat.not_le_of_lt hwide⟩
      · rcases Outcome.bind_eq_error.mp h with hfinite | ⟨_, -, hrest⟩
        · exact .inl (isNumeric_of_requireFinite hfinite)
        · cases hrest
  | svd =>
      rcases Outcome.bind_eq_error.mp h with hfinite | ⟨_, -, hvalues⟩
      · exact .inl (isNumeric_of_requireFinite hfinite)
      · split at hvalues <;> cases hvalues
        exact .inl rfl

end Factoring

section Solving

variable {α : Type} [Scalar α] {admitted : Prop}

/-- The check of a solution refuses the numbers. -/
theorem requireSolution_ends (hadmitted : admitted) (x : DenseMatrix α) (n : Nat) :
    SolveEnds admitted (requireSolution x n) := by
  unfold requireSolution
  split
  · exact .faulted _
  split
  · exact .answered x hadmitted
  · exact .refused _ (.inl rfl)

omit [Scalar α] in
theorem SolveEnds.ite {β : Type} {c : Prop} [Decidable c] {x x' : Outcome Report β}
    (h : SolveEnds admitted x) (h' : SolveEnds admitted x') :
    SolveEnds admitted (if c then x else x') := by
  split
  · exact h
  · exact h'

/-- A solve with factors refuses nothing but a solution that is not finite. -/
theorem factoredSolve_ends (hadmitted : admitted) {kind : Factorization} (f : Factored α kind)
    (b : DenseMatrix α) : SolveEnds admitted (f.solve b) := by
  have hlast (x : DenseMatrix α) (n : Nat) := requireSolution_ends hadmitted x n
  obtain ⟨nrows, ncols, factors⟩ := f
  cases factors with
  | lu factors => exact .ite (hlast _ _) (.faulted _)
  | qr factors => exact .ite (hlast _ _) (.faulted _)
  | cholesky lower => exact .ite (hlast _ _) (.faulted _)
  | svd factors =>
      refine .ite (.faulted _) (.ite (.faulted _) (.ite (.faulted _) (.ite (.faulted _) ?_)))
      exact hlast _ _

variable [Kernels α]

theorem solveBy_ends (kind : Factorization) (a b : DenseMatrix α) :
    SolveEnds (kind.Admits a.nrows a.ncols) (solveBy kind a b) := by
  unfold solveBy
  split
  · rename_i factored hfactor
    exact factoredSolve_ends (admits_of_factor hfactor) factored b
  · rename_i report hfactor
    exact .refused report (refusedFor_of_factor hfactor)

omit [Scalar α] [Kernels α] in
/-- Notes and what is made of an answer do not change how a solve ends. -/
theorem SolveEnds.note {β γ : Type} {solved : Outcome Report β} (h : SolveEnds admitted solved)
    (note : Note) (f : β → γ) :
    SolveEnds admitted ((solved.mapReport fun report => report.attach note).map f) := by
  cases h with
  | answered answer hadmitted => exact .answered (f answer) hadmitted
  | refused report hrefused => exact .refused (report.attach note) hrefused
  | faulted fault => exact .faulted fault

/-- **The ends of a dense solve** whose right-hand side fits the matrix. -/
theorem solve_ends (strategy : Strategy) {a : DenseMatrix α} {b : List α} (tags : Tags)
    (hfits : b.length = a.nrows) :
    SolveEnds (strategy.Admits a.nrows a.ncols tags) (solve strategy a b tags) := by
  unfold solve
  rw [if_neg (Decidable.not_not.mpr hfits)]
  by_cases hcols : a.ncols = 0
  · rw [if_pos hcols]
    exact .answered [] (.inl hcols)
  rw [if_neg hcols]
  split
  · rename_i report hfactorization
    exact .refused report (.inr ⟨cause_of_factorization hfactorization,
      Strategy.not_admits_of_factorization hcols hfactorization⟩)
  · rename_i kind hkind
    rw [Strategy.admits_iff hcols hkind]
    split
    · exact (solveBy_ends kind a _).note _ _
    · exact .refused _ (.inl rfl)

end Solving

end LeastSquares.Dense
