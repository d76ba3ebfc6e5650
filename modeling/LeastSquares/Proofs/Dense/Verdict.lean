import LeastSquares.Proofs.Dense.Columns
import LeastSquares.Proofs.Dense.Misuse

/-!
# What decides a dense solve

A dense solve comes to a verdict, an answer or the cause of a refusal, and the verdict is settled by
the first of a row of tests that applies: the length of the right-hand side, the system without
unknowns, the strategy, the entries of the right-hand side, the shape that the selected factorization
takes, the entries of the matrix, and only then the factorization itself. The row of tests is written
down once more as a function of its own, which knows nothing of the padded column that the solve works
on, nor of the rows of it that the factorizations look at. The two agree on every input, so no solve
faults (`solve_verdict`).
-/

namespace LeastSquares.Dense

variable {α : Type} [Scalar α]

/-- The answer of a solve, or the cause of its refusal; a fault is neither. -/
def verdict? {β : Type} : Outcome Report β → Option (Except Cause β)
  | .ok x => some (.ok x)
  | .error (.reported report) => some (.error report.cause)
  | .error (.broken _) => none

instance : (kind : Factorization) → (nrows ncols : Nat) → Decidable (kind.Admits nrows ncols)
  | .lu, nrows, ncols | .cholesky, nrows, ncols => inferInstanceAs (Decidable (nrows = ncols))
  | .qr, nrows, ncols => inferInstanceAs (Decidable (ncols ≤ nrows))
  | .svd, _, _ => inferInstanceAs (Decidable True)

/-! ### The row of tests -/

section Verdict

variable [Kernels α]

/-- The factors that the kernel of a kind finds for a matrix, or the cause for which there are none.
Neither the shape nor the entries are tested. -/
def Factorization.decompose (kind : Factorization) (a : DenseMatrix α) :
    Except Cause (Factored α kind) :=
  match kind with
  | .lu =>
      let factors := Kernels.lu a
      let cutoff := rankTolerance (largestOf factors.pivots) a.nrows
      if Scalar.le (smallestOf factors.pivots) cutoff then .error .singular
      else .ok ((Factors.lu factors).of a)
  | .qr => .ok ((Factors.qr (Kernels.qr a)).of a)
  | .cholesky =>
      match Kernels.cholesky a with
      | none => .error .notPositiveDefinite
      | some lower => .ok ((Factors.cholesky lower).of a)
  | .svd =>
      match Kernels.svd a with
      | none => .error .decomposition
      | some factors => .ok ⟨factors.u.nrows, factors.v.nrows, .svd factors⟩

/-- The first `n` entries of what factors make of a right-hand side. -/
def Factored.unknowns {kind : Factorization} (factored : Factored α kind) (n : Nat) (b : List α) :
    List α :=
  (List.range n).map fun i => (factored.image b).getD i 0

/-- What a factorization answers for a matrix and a right-hand side that have passed the tests. -/
def Factorization.answer (kind : Factorization) (a : DenseMatrix α) (b : List α) :
    Except Cause (List α) := do
  let factored ← kind.decompose a
  let x := factored.unknowns a.ncols b
  if x.all Scalar.isFinite then .ok x else .error .singular

/-- The verdict of a factorization on a matrix and a right-hand side with finite entries. -/
def Factorization.verdict (kind : Factorization) (a : DenseMatrix α) (b : List α) :
    Except Cause (List α) :=
  if ¬kind.Admits a.nrows a.ncols then .error .shapeMismatch
  else if a.allFinite = false then .error .nonFiniteInput
  else kind.answer a b

/-- The verdict on a system. -/
def Strategy.verdict (strategy : Strategy) (a : DenseMatrix α) (b : List α) (tags : Tags) :
    Except Cause (List α) :=
  if b.length ≠ a.nrows then .error .shapeMismatch
  else if a.ncols = 0 then .ok []
  else if strategy = .auto (some true) ∧ a.nrows ≠ a.ncols then .error .shapeMismatch
  else if b.all Scalar.isFinite = false then .error .nonFiniteInput
  else do
    let kind ← (strategy.factorization a.nrows a.ncols tags).mapError Report.cause
    kind.verdict a b

end Verdict

/-! ### The padded column -/

section Padding

theorem map_getD_range (b : List α) : (List.range b.length).map (fun i => b.getD i 0) = b := by
  apply List.ext_getElem
  · simp
  · intro i h₁ h₂
    simp [h₂]

theorem column_paddedColumn (nrows ncols : Nat) (b : List α) :
    (paddedColumn nrows ncols b).column 0 =
      (List.range (Nat.max nrows ncols)).map fun i => b.getD i 0 := by
  refine List.map_congr_left fun i hi => ?_
  exact DenseMatrix.entry_ofFn _ _ _ (List.mem_range.mp hi) Nat.one_pos

/-- The first rows of a padded column are the right-hand side. -/
theorem take_paddedColumn {nrows : Nat} (ncols : Nat) {b : List α} (hfits : b.length = nrows) :
    ((paddedColumn nrows ncols b).column 0).take nrows = b := by
  rw [column_paddedColumn, ← List.map_take, List.take_range, Nat.min_eq_left (Nat.le_max_left ..),
    ← hfits, map_getD_range]

/-- A column is padded only where it is not longer than the unknowns. -/
theorem paddedColumn_of_le {nrows ncols : Nat} {b : List α} (hle : ncols ≤ nrows)
    (hfits : b.length = nrows) : (paddedColumn nrows ncols b).column 0 = b := by
  have hlonger : Nat.max nrows ncols = nrows := Nat.max_eq_left hle
  rw [column_paddedColumn, hlonger, ← hfits, map_getD_range]

variable {kind : Factorization} {factored : Factored α kind} {b : List α}

/-- Factors of an admitted shape make the same of a right-hand side and of its padded column. -/
theorem Factored.image_paddedColumn (hadmits : kind.Admits factored.nrows factored.ncols)
    (hfits : b.length = factored.nrows) :
    factored.image ((paddedColumn factored.nrows factored.ncols b).column 0) = factored.image b := by
  obtain ⟨nrows, ncols, factors⟩ := factored
  cases factors with
  | lu f => rw [paddedColumn_of_le (Nat.le_of_eq (Eq.symm hadmits)) hfits]
  | qr f => rw [paddedColumn_of_le hadmits hfits]
  | cholesky lower => rw [paddedColumn_of_le (Nat.le_of_eq (Eq.symm hadmits)) hfits]
  | svd f =>
      -- A wide matrix has a longer column, of which the left directions read the first rows.
      show f.solve nrows ncols _ = f.solve nrows ncols b
      rw [SvdFactors.solve, SvdFactors.solve, take_paddedColumn ncols hfits,
        List.take_of_length_le (Nat.le_of_eq hfits)]

/-- The first entries of the solved column are the unknowns. -/
theorem Factored.take_column_mapColumns (hadmits : kind.Admits factored.nrows factored.ncols)
    (hfits : b.length = factored.nrows) :
    ((mapColumns factored.image (paddedColumn factored.nrows factored.ncols b)).column 0).take
      factored.ncols = factored.unknowns factored.ncols b := by
  have hcolumn := column_mapColumns (b := paddedColumn factored.nrows factored.ncols b)
    factored.image Nat.one_pos
  have hrows : min factored.ncols (Nat.max factored.nrows factored.ncols) = factored.ncols :=
    Nat.min_eq_left (Nat.le_max_right ..)
  rw [hcolumn, image_paddedColumn hadmits hfits, ← List.map_take, List.take_range]
  exact congrArg (fun n => (List.range n).map fun i => (factored.image b).getD i 0) hrows

end Padding

/-! ### A solve comes to its verdict -/

section Solving

variable {kind : Factorization}

theorem verdict?_requireSolution {x : DenseMatrix α} (hcols : x.ncols ≠ 0) (n : Nat) :
    verdict? ((requireSolution x n).map fun x => (x.column 0).take n) =
      some (if ((x.column 0).take n).all Scalar.isFinite then .ok ((x.column 0).take n)
        else .error .singular) := by
  rw [requireSolution, if_neg hcols]
  split <;> rfl

/-- Factors of an admitted shape answer the unknowns if these are finite, and refuse them if not. -/
theorem Factored.verdict?_solve {factored : Factored α kind} {b : List α}
    (hadmits : kind.Admits factored.nrows factored.ncols) (hfits : b.length = factored.nrows) :
    verdict? ((factored.solve (paddedColumn factored.nrows factored.ncols b)).map fun x =>
        (x.column 0).take factored.ncols) =
      some (if (factored.unknowns factored.ncols b).all Scalar.isFinite
        then .ok (factored.unknowns factored.ncols b) else .error .singular) := by
  rw [Factored.solve_eq hadmits rfl fun _ => rfl, verdict?_requireSolution Nat.one_ne_zero,
    take_column_mapColumns hadmits hfits]

omit [Scalar α] in
/-- Notes do not change a verdict. -/
theorem verdict?_note {β γ : Type} (solved : Outcome Report β) (note : Note) (f : β → γ) :
    verdict? ((solved.mapReport fun report => report.attach note).map f) =
      verdict? (solved.map f) := by
  match solved with
  | .ok x => rfl
  | .error (.reported report) => rfl
  | .error (.broken fault) => rfl

variable [Kernels α]

/-- A factorization tests the shape before the entries, and the entries before it begins. -/
theorem mapError_factor (kind : Factorization) (a : DenseMatrix α) :
    (factor kind a).mapError Report.cause =
      if ¬kind.Admits a.nrows a.ncols then .error .shapeMismatch
      else if a.allFinite = false then .error .nonFiniteInput
      else kind.decompose a := by
  by_cases hadmits : kind.Admits a.nrows a.ncols
  case neg =>
    obtain ⟨report, hfactor, hcause⟩ := factor_of_not_admits hadmits
    rw [if_pos hadmits, hfactor, ← hcause]
    rfl
  rw [if_neg (not_not_intro hadmits)]
  have hfinite : requireFinite a =
      if a.allFinite = false then .error ⟨.nonFiniteInput, []⟩ else .ok () := by
    unfold requireFinite
    cases a.allFinite <;> rfl
  cases kind with
  | lu =>
      have hsquare : requireSquare .lu a = .ok () := if_pos hadmits
      simp only [factor, hsquare, hfinite, Outcome.ok_bind]
      split
      · rfl
      · simp only [Outcome.ok_bind, Factorization.decompose]
        split <;> rfl
  | qr =>
      simp only [factor, if_neg (Nat.not_lt_of_le hadmits), hfinite]
      split <;> rfl
  | cholesky =>
      have hsquare : requireSquare .cholesky a = .ok () := if_pos hadmits
      simp only [factor, hsquare, hfinite, Outcome.ok_bind]
      split
      · rfl
      · simp only [Outcome.ok_bind, Factorization.decompose]
        cases Kernels.cholesky a <;> rfl
  | svd =>
      simp only [factor, hfinite]
      split
      · rfl
      · simp only [Outcome.ok_bind, Factorization.decompose]
        cases Kernels.svd a <;> rfl

theorem Factorization.verdict_eq (kind : Factorization) (a : DenseMatrix α) (b : List α) :
    kind.verdict a b = (do
      let factored ← (factor kind a).mapError Report.cause
      let x := factored.unknowns a.ncols b
      if x.all Scalar.isFinite then .ok x else .error .singular) := by
  rw [mapError_factor, Factorization.verdict]
  split
  · rfl
  · split <;> rfl

/-- Factoring and solving for the padded column comes to the verdict of the factorization. -/
theorem verdict?_solveBy [Kernels.LawfulSvd α] (kind : Factorization) {a : DenseMatrix α}
    {b : List α} (hfits : b.length = a.nrows) :
    verdict? ((solveBy kind a (paddedColumn a.nrows a.ncols b)).map fun x =>
        (x.column 0).take a.ncols) = some (kind.verdict a b) := by
  rw [kind.verdict_eq, solveBy]
  cases hfactor : factor kind a with
  | error report => rfl
  | ok factored =>
      obtain ⟨hnrows, hncols⟩ := (factorsOf_of_factor hfactor).dims
      have hadmits := admits_of_factor hfactor
      rw [← hnrows, ← hncols] at hadmits ⊢
      rw [← hnrows] at hfits
      exact Factored.verdict?_solve hadmits hfits

/-- A strategy selects a factorization unless it asks for a square and there is none. -/
theorem Strategy.selects_iff (strategy : Strategy) (nrows ncols : Nat) (tags : Tags) :
    strategy.Selects nrows ncols tags ↔ ¬(strategy = .auto (some true) ∧ nrows ≠ ncols) := by
  constructor
  · rintro ⟨kind, hkind⟩ ⟨rfl, hshape⟩
    rw [Strategy.factorization, if_neg hshape, if_pos rfl] at hkind
    · cases hkind
    · decide
  · intro hsquare
    unfold Strategy.Selects Strategy.factorization
    split
    case h_6 wellPosed hdeclared =>
      split
      · split <;> exact ⟨_, rfl⟩
      · rename_i hshape
        split
        · rename_i hwellPosed
          exact absurd ⟨by rw [hwellPosed], hshape⟩ hsquare
        · split <;> exact ⟨_, rfl⟩
    all_goals exact ⟨_, rfl⟩

/-- A dense solve comes to the verdict on its system. -/
theorem verdict?_solve [Kernels.LawfulSvd α] (strategy : Strategy) (a : DenseMatrix α) (b : List α)
    (tags : Tags) : verdict? (solve strategy a b tags) = some (strategy.verdict a b tags) := by
  unfold solve Strategy.verdict
  by_cases hfits : b.length = a.nrows
  case neg =>
    rw [if_pos hfits, if_pos hfits]
    rfl
  rw [if_neg (not_not_intro hfits), if_neg (not_not_intro hfits)]
  by_cases hcols : a.ncols = 0
  case pos =>
    rw [if_pos hcols, if_pos hcols]
    rfl
  rw [if_neg hcols, if_neg hcols]
  have hselects := strategy.selects_iff a.nrows a.ncols tags
  cases hkind : strategy.factorization a.nrows a.ncols tags with
  | error report =>
      have hnone : ¬strategy.Selects a.nrows a.ncols tags := by
        rintro ⟨kind, hsome⟩
        cases hkind.symm.trans hsome
      rw [hselects, not_not] at hnone
      rw [if_pos hnone, ← cause_of_factorization hkind]
      rfl
  | ok kind =>
      rw [if_neg (hselects.mp ⟨kind, hkind⟩)]
      cases hfinite : b.all Scalar.isFinite with
      | false => rfl
      | true =>
          dsimp only
          rw [if_pos rfl, if_neg Bool.true_eq_false_eq_False]
          rw [verdict?_note, verdict?_solveBy kind hfits]
          rfl

end Solving

/-! ### Causes and answers of a factorization -/

section Answers

variable [Kernels α] {kind : Factorization} {a : DenseMatrix α} {b x : List α}

/-- What a factorization answers are the unknowns of its factors, and these are finite. -/
theorem Factorization.answer_eq_ok :
    kind.answer a b = .ok x ↔
      ∃ factored, kind.decompose a = .ok factored ∧ x = factored.unknowns a.ncols b ∧
        x.all Scalar.isFinite = true := by
  rw [Factorization.answer, Outcome.bind_eq_ok]
  refine exists_congr fun factored => and_congr_right fun _ => ?_
  dsimp only
  split
  · rename_i hfinite
    constructor
    · intro h
      cases h
      exact ⟨rfl, hfinite⟩
    · rintro ⟨rfl, -⟩
      rfl
  · rename_i hinfinite
    constructor
    · intro h
      cases h
    · rintro ⟨rfl, hfinite⟩
      exact absurd hfinite hinfinite

theorem factorsOf_of_decompose {factored : Factored α kind} (h : kind.decompose a = .ok factored) :
    FactorsOf a factored := by
  cases kind with
  | lu =>
      simp only [Factorization.decompose] at h
      split at h <;> cases h
      exact .lu
  | qr =>
      cases h
      exact .qr
  | cholesky =>
      simp only [Factorization.decompose] at h
      split at h
      · cases h
      · rename_i lower hlower
        cases h
        exact .cholesky lower hlower
  | svd =>
      simp only [Factorization.decompose] at h
      split at h
      · cases h
      · rename_i f hf
        cases h
        exact .svd f hf

/-- A factorization refuses a matrix that is singular, or for the cause that its own kind has. -/
theorem Factorization.cause_of_answer {cause : Cause} (h : kind.answer a b = .error cause) :
    cause = .singular ∨ kind = .cholesky ∧ cause = .notPositiveDefinite ∨
      kind = .svd ∧ cause = .decomposition := by
  rcases Outcome.bind_eq_error.mp h with hnone | ⟨factored, -, hinfinite⟩
  · cases kind with
    | lu =>
        simp only [Factorization.decompose] at hnone
        split at hnone <;> cases hnone
        exact .inl rfl
    | qr => cases hnone
    | cholesky =>
        simp only [Factorization.decompose] at hnone
        split at hnone <;> cases hnone
        exact .inr (.inl ⟨rfl, rfl⟩)
    | svd =>
        simp only [Factorization.decompose] at hnone
        split at hnone <;> cases hnone
        exact .inr (.inr ⟨rfl, rfl⟩)
  · dsimp only at hinfinite
    split at hinfinite <;> cases hinfinite
    exact .inl rfl

/-- An answer is empty, or it is the answer of the factorization that the strategy selects. -/
theorem Strategy.answer_of_verdict {strategy : Strategy} {tags : Tags}
    (h : strategy.verdict a b tags = .ok x) :
    b.length = a.nrows ∧ (a.ncols = 0 ∧ x = [] ∨
      ∃ kind, strategy.factorization a.nrows a.ncols tags = .ok kind ∧
        kind.Admits a.nrows a.ncols ∧ kind.answer a b = .ok x) := by
  unfold Strategy.verdict at h
  split at h
  · cases h
  rename_i hfits
  refine ⟨not_not.mp hfits, ?_⟩
  split at h
  · rename_i hcols
    cases h
    exact .inl ⟨hcols, rfl⟩
  split at h
  · cases h
  split at h
  · cases h
  obtain ⟨kind, hkind, hverdict⟩ := Outcome.bind_eq_ok.mp h
  refine .inr ⟨kind, ?_, ?_⟩
  · cases hselected : strategy.factorization a.nrows a.ncols tags with
    | error report =>
        rw [hselected] at hkind
        cases hkind
    | ok selected =>
        rw [hselected] at hkind
        cases hkind
        rfl
  · unfold Factorization.verdict at hverdict
    split at hverdict
    · cases hverdict
    split at hverdict
    · cases hverdict
    rename_i hadmits _
    exact ⟨not_not.mp hadmits, hverdict⟩

omit [Scalar α] [Kernels α] in
/-- A solve whose shape may be admitted does not say that nothing was factored. -/
theorem SolveEnds.not_isNotFactored {β : Type} {admitted : Prop} {outcome : Outcome Report β}
    (h : SolveEnds admitted outcome) : ¬IsNotFactored outcome := by
  rintro ⟨notes, rfl⟩
  cases h with
  | refused report hrefused =>
      rcases hrefused with hnumeric | ⟨hshape, -⟩
      · cases hnumeric
      · cases hshape

theorem not_isNotFactored_solve (strategy : Strategy) (a : DenseMatrix α) (b : List α)
    (tags : Tags) : ¬IsNotFactored (solve strategy a b tags) := by
  by_cases hfits : b.length = a.nrows
  · exact (solve_ends strategy tags hfits).not_isNotFactored
  · rw [solve, if_pos hfits]
    rintro ⟨notes, hreport⟩
    cases hreport

/-- An answer has as many entries as there are unknowns, and all of them are finite. -/
theorem Strategy.finite_of_verdict {strategy : Strategy} {tags : Tags}
    (h : strategy.verdict a b tags = .ok x) :
    x.length = a.ncols ∧ x.all Scalar.isFinite = true := by
  rcases (Strategy.answer_of_verdict h).2 with ⟨hcols, rfl⟩ | ⟨kind, -, -, hanswer⟩
  · exact ⟨hcols.symm, rfl⟩
  · obtain ⟨factored, -, rfl, hfinite⟩ := Factorization.answer_eq_ok.mp hanswer
    exact ⟨by simp [Factored.unknowns], hfinite⟩

/-- What a solve answers is its verdict. -/
theorem verdict_of_solve [Kernels.LawfulSvd α] {strategy : Strategy} {tags : Tags}
    (h : solve strategy a b tags = .ok x) : strategy.verdict a b tags = .ok x := by
  have hverdict := verdict?_solve strategy a b tags
  rw [h] at hverdict
  exact (Option.some.inj hverdict).symm

/-- And a verdict that is an answer is what the solve answers. -/
theorem solve_of_verdict [Kernels.LawfulSvd α] {strategy : Strategy} {tags : Tags}
    (h : strategy.verdict a b tags = .ok x) : solve strategy a b tags = .ok x := by
  have hverdict := verdict?_solve strategy a b tags
  rw [h] at hverdict
  cases hsolve : solve strategy a b tags with
  | ok y =>
      rw [hsolve] at hverdict
      cases hverdict
      rfl
  | error failure =>
      rw [hsolve] at hverdict
      cases failure <;> cases hverdict

/-! ### The ends of a solve -/

/-- The ends of a dense solve with `n` unknowns: an answer, a refusal of the numbers, or one of the
shape. -/
inductive SolveSettles (n : Nat) : Outcome Report (List α) → Prop
  | answered (x : List α) (hlength : x.length = n)
      (hfinite : ∀ entry ∈ x, Scalar.isFinite entry = true) :
      SolveSettles n (.ok x)
  | numeric (report : Report) (h : report.cause.isNumeric = true) :
      SolveSettles n (Outcome.report report)
  | misfit (report : Report) (h : report.cause = .shapeMismatch) :
      SolveSettles n (Outcome.report report)

/-- No dense solve faults or says that nothing was factored, so these are all. -/
theorem solve_settles [Kernels.LawfulSvd α] (strategy : Strategy) (a : DenseMatrix α) (b : List α)
    (tags : Tags) : SolveSettles a.ncols (solve strategy a b tags) := by
  have hverdict := verdict?_solve strategy a b tags
  have hfactored := not_isNotFactored_solve strategy a b tags
  cases hsolve : solve strategy a b tags with
  | ok x =>
      obtain ⟨hlength, hfinite⟩ := Strategy.finite_of_verdict (verdict_of_solve hsolve)
      exact .answered x hlength (List.all_eq_true.mp hfinite)
  | error failure =>
      rw [hsolve] at hverdict hfactored
      cases failure with
      | broken fault => cases hverdict
      | reported report =>
          obtain ⟨cause, notes⟩ := report
          cases cause with
          | notFactored => exact absurd ⟨notes, rfl⟩ hfactored
          | shapeMismatch => exact .misfit _ rfl
          | nonFiniteInput | singular | notPositiveDefinite | decomposition => exact .numeric _ rfl

end Answers

/-- **What decides a dense solve.** On every system the solve comes to the verdict of the row of tests
and of the selected factorization, so it neither faults nor says that nothing was factored. Past the
tests a factorization refuses a singular matrix, or for the one cause that is its own. An answer has
as many entries as there are unknowns, and all of them are finite. -/
theorem solve_verdict [Kernels α] [Kernels.LawfulSvd α] (strategy : Strategy) (a : DenseMatrix α)
    (b : List α) (tags : Tags) :
    verdict? (solve strategy a b tags) = some (strategy.verdict a b tags) ∧
      (∀ fault, solve strategy a b tags ≠ .error (.broken fault)) ∧
      ¬IsNotFactored (solve strategy a b tags) ∧
      (∀ (kind : Factorization) (cause : Cause), kind.answer a b = .error cause →
        cause = .singular ∨ kind = .cholesky ∧ cause = .notPositiveDefinite ∨
          kind = .svd ∧ cause = .decomposition) ∧
      ∀ x, solve strategy a b tags = .ok x → x.length = a.ncols ∧ x.all Scalar.isFinite = true := by
  have hverdict := verdict?_solve strategy a b tags
  refine ⟨hverdict, fun fault hfault => ?_, not_isNotFactored_solve strategy a b tags,
    fun kind cause hcause => Factorization.cause_of_answer hcause,
    fun x hx => Strategy.finite_of_verdict (verdict_of_solve hx)⟩
  rw [hfault] at hverdict
  cases hverdict

section Column

open Exact

theorem allFinite_iff {a : DenseMatrix α} :
    a.allFinite = true ↔
      ∀ i < a.nrows, ∀ j < a.ncols, Scalar.isFinite (a.entry i j) = true := by
  simp [DenseMatrix.allFinite, DenseMatrix.toRows, DenseMatrix.row]

/-- Triangular factors of a column of two ones: an entry of the right-hand side that is no number comes
before the shape, and the shape before an entry of the matrix that is no number. Singular values take
the shape, and then it is the entry of the matrix that counts. -/
theorem solve_verdict_column :
    let column (x : Exact) : DenseMatrix Exact := .ofFn 2 1 fun i _ => if i = 0 then x else 1
    verdict? (solve .lu (column 1) [nan, 1] {}) = some (.error .nonFiniteInput) ∧
      verdict? (solve .lu (column nan) [1, 1] {}) = some (.error .shapeMismatch) ∧
      verdict? (solve .svd (column nan) [1, 1] {}) = some (.error .nonFiniteInput) := by
  intro column
  refine ⟨(solve_verdict .lu (column 1) [nan, 1] {}).1.trans ?_,
    (solve_verdict .lu (column nan) [1, 1] {}).1.trans ?_,
    (solve_verdict .svd (column nan) [1, 1] {}).1.trans ?_⟩
  · simp [Strategy.verdict, column]
  · simp [Strategy.verdict, column, Strategy.factorization, Except.mapError, Factorization.verdict,
      Factorization.Admits]
  · have hnan : (column nan).allFinite = false := by
      refine Bool.eq_false_iff.mpr fun hfinite => ?_
      have hentry := allFinite_iff.mp hfinite 0 Nat.two_pos 0 Nat.one_pos
      rw [DenseMatrix.entry_ofFn _ _ _ Nat.two_pos Nat.one_pos] at hentry
      cases hentry
    have hcols : (column nan).ncols = 1 := rfl
    have hrows : (column nan).nrows = 2 := rfl
    simp [Strategy.verdict, hcols, hrows, Strategy.factorization, Except.mapError,
      Factorization.verdict, Factorization.Admits, hnan]

end Column

end LeastSquares.Dense
