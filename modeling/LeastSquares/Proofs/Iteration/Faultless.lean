import LeastSquares.Proofs.Iteration.Answers
import LeastSquares.Proofs.Iteration.Misfit
import LeastSquares.Proofs.Representation.Run
import LeastSquares.Proofs.Dense.Verdict

/-!
# Runs without faults

A fault is a broken precondition: a tree that is given a number of leaves other than its size, two
trees or lists that do not fit, a position outside a matrix, a right-hand side of another length. What
keeps a run from all of them is one invariant, that the point and its last change have the skeleton of
the starting point. Then the unit trees of the linearization have it, the matrix has a row for each leaf
of the residual and a column for each leaf of the point, a solution is read out into the skeleton
whatever became of the solve, and so the step has the skeleton as well (`newton_faultless`).

Asked is only that the residual and its derivative answer on the trees of this skeleton, and with as
many leaves everywhere.
-/

namespace LeastSquares

open LeastSquares.Tree Outcome GaussNewton

variable {κ α Aux : Type}

/-- On the trees of a skeleton the residual answers with the same number of leaves everywhere, and so
does its derivative along the trees of the skeleton. -/
structure Residual.HasShape (residual : Residual κ α Aux) (skeleton : Tree κ Unit) (m : Nat) :
    Prop where
  value : ∀ t, t.skeleton = skeleton → ∃ u aux, residual.value t = .ok (u, aux) ∧ u.size = m
  tangent : ∀ t v, t.skeleton = skeleton → v.skeleton = skeleton →
    ∃ u, residual.tangent t v = .ok u ∧ u.size = m

/-- A linearization that answers along the trees of a skeleton with as many leaves as its value has. -/
structure Linearization.HasShape (linear : Linearization κ α Aux) (skeleton : Tree κ Unit) (m : Nat) :
    Prop where
  value : linear.value.size = m
  tangent : ∀ v, v.skeleton = skeleton → ∃ u, linear.tangent v = .ok u ∧ u.size = m

namespace Residual.HasShape

variable {residual : Residual κ α Aux} {skeleton : Tree κ Unit} {m : Nat} {y : Tree κ α}
  (h : residual.HasShape skeleton m)

include h

theorem linearize (hy : y.skeleton = skeleton) :
    ∃ linear, residual.linearize y = .ok linear ∧ linear.HasShape skeleton m := by
  obtain ⟨value, aux, hvalue, hsize⟩ := h.value y hy
  refine ⟨⟨value, residual.tangent y, aux⟩, ?_, hsize, fun v hv => h.tangent y v hy hv⟩
  simp [Residual.linearize, hvalue]

theorem auxAt (hy : y.skeleton = skeleton) : ∃ aux, residual.auxAt y = .ok aux := by
  obtain ⟨value, aux, hvalue, -⟩ := h.value y hy
  exact ⟨aux, by simp [Residual.auxAt, hvalue]⟩

theorem objective [Scalar α] (hy : y.skeleton = skeleton) :
    ∃ answer, residual.objective y = .ok answer := by
  obtain ⟨value, aux, hvalue, -⟩ := h.value y hy
  exact ⟨(sumSquares value, aux), by simp [Residual.objective, hvalue]⟩

end Residual.HasShape

/-! ### Leafwise operations -/

section Leafwise

variable [Scalar α]

/-- Trees of one skeleton are combined into a tree of the skeleton. -/
theorem zipWith_of_skeleton (f : α → α → α) {skeleton : Tree κ Unit} {t u : Tree κ α}
    (ht : t.skeleton = skeleton) (hu : u.skeleton = skeleton) :
    ∃ v, t.zipWith f u = .ok v ∧ v.skeleton = skeleton := by
  have hsize : t.size = u.size := size_eq_of_skeleton (ht.trans hu.symm)
  exact ⟨_, zipWith_eq_ok f hsize, (skeleton_withLeaves t _).trans ht⟩

/-- Mapping the leaves keeps their number, so the check of a rebuild would pass. -/
theorem rebuild_map (t : Tree κ α) (f : α → α) : t.rebuild (t.leaves.map f) = .ok (t.map f) :=
  rebuild_eq_ok t (by rw [List.length_map, leaves_length])

/-- And so it would for the leaves of a unit tree. -/
theorem rebuild_unit (t : Tree κ α) (j : Nat) :
    t.rebuild ((List.range t.leaves.length).map fun i => if i = j then 1 else 0) = .ok (t.unit j) :=
  rebuild_eq_ok t (by rw [List.length_map, List.length_range, leaves_length])

end Leafwise

/-! ### Matrices and solves -/

section Solving

variable [Scalar α] {skeleton : Tree κ Unit} {m : Nat}
  {apply : Tree κ α → Checked (Tree κ α)} {domain codomain : Tree κ α}

/-- A map that answers with as many leaves as a column is long has a matrix: no image of a unit tree
reaches past the end of its column. -/
theorem materialize_of_shape (happly : ∀ v, v.skeleton = skeleton → ∃ u, apply v = .ok u ∧ u.size = m)
    (hdomain : domain.skeleton = skeleton) (hcodomain : codomain.size = m) :
    ∃ a, materialize apply domain codomain = .ok a ∧ a.nrows = m ∧ a.ncols = domain.size := by
  have hcolumn (j : Nat) : ∃ column, columnOf apply domain codomain.size j = .ok column := by
    obtain ⟨image, himage, hsize⟩ := happly (domain.unit j) ((skeleton_unit domain j).trans hdomain)
    have hfits : image.size ≤ codomain.size := (hsize.trans hcodomain.symm).le
    exact ⟨image.leaves, columnOf_eq_ok_iff.mpr ⟨image, himage, hfits, rfl⟩⟩
  choose column hcolumn using hcolumn
  have hmatrix : materialize apply domain codomain =
      .ok (.ofColumns codomain.size domain.size ((List.range domain.size).map column)) := by
    rw [materialize, Outcome.mapM_eq_ok fun j _ => hcolumn j]
    rfl
  obtain ⟨hrows, hcols⟩ := dims_of_materialize hmatrix
  exact ⟨_, hmatrix, hrows.trans hcodomain, hcols⟩

variable [Dense.Kernels α] [Dense.Kernels.LawfulSvd α]

/-- A dense solve never faults, and answers an entry for each unknown. -/
theorem Dense.solve_faultless (strategy : Dense.Strategy) (a : DenseMatrix α) (b : List α)
    (tags : Tags) : Faultless (fun x => x.length = a.ncols) (Dense.solve strategy a b tags) := by
  have hsettles := Dense.solve_settles strategy a b tags
  generalize Dense.solve strategy a b tags = solved at hsettles
  cases hsettles with
  | answered x hlength hfinite => exact .ok hlength
  | numeric report hnumeric => exact .reported report
  | misfit report hshape => exact .reported report

/-- Solving against a map keeps the skeleton of its domain: a solution has a leaf for each unknown, and
a failure is filled in. -/
theorem LinearOperator.solve_faultless
    (happly : ∀ v, v.skeleton = skeleton → ∃ u, apply v = .ok u ∧ u.size = m)
    (hdomain : domain.skeleton = skeleton) (hcodomain : codomain.size = m) (tags : Tags)
    (vector : Tree κ α) (strategy : Dense.Strategy) :
    Faultless (fun solution => solution.value.skeleton = skeleton)
      ((LinearOperator.ofFunction apply domain codomain tags).solve vector strategy) := by
  obtain ⟨a, hmatrix, hrows, hcols⟩ := materialize_of_shape happly hdomain hcodomain
  have hdense := Dense.solve_faultless strategy a vector.leaves tags
  simp only [LinearOperator.solve, LinearOperator.ofFunction, hmatrix, Outcome.liftM_eq_toOutcome,
    Checked.toOutcome_ok, Outcome.ok_bind]
  generalize Dense.solve strategy a vector.leaves tags = solved at hdense
  cases hdense with
  | ok hx =>
      refine .checked_bind ⟨_, rebuild_eq_ok domain (hx.trans hcols), .ok ?_⟩
      exact (skeleton_withLeaves domain _).trans hdomain
  | reported report =>
      dsimp only
      cases Status.ofCause? report.cause with
      | some status => exact .ok ((skeleton_fill domain _).trans hdomain)
      | none => exact .reported _

end Solving

/-! ### Searches -/

section Searching

variable [Scalar α] {skeleton : Tree κ Unit} {m : Nat} {linear : Linearization κ α Aux} {y : Tree κ α}

/-- What a search may count on at a point, so that it does not fault: the steps of the descent have the
skeleton of the point, and at every tree of this skeleton the objective and the predicted change are
known. -/
structure SearchFits (skeleton : Tree κ Unit) (objective : Tree κ α → Checked (α × Aux))
    (descent : Descent κ α) (y : Tree κ α) (options : LineSearchOptions κ α Aux) : Prop where
  point : y.skeleton = skeleton
  compute : ∀ stepSize, Faultless (fun step => step.diff.skeleton = skeleton)
    (descent.compute stepSize options.descentOptions)
  objective : ∀ t, t.skeleton = skeleton → ∃ answer, objective t = .ok answer
  predicted : ∀ diff, diff.skeleton = skeleton → ∃ change, options.predictedChange diff = .ok change

/-- At a point of the skeleton Newton's descent fits. -/
theorem searchFits_newton [Dense.Kernels α] [Dense.Kernels.LawfulSvd α] {residual : Residual κ α Aux}
    (h : residual.HasShape skeleton m) (hlinear : linear.HasShape skeleton m)
    (hy : y.skeleton = skeleton) (descent : NewtonDescent α) (tags : Tags) (init : α) :
    SearchFits skeleton residual.objective descent.toDescent y (searchOptions linear tags y init) where
  point := hy
  compute stepSize := by
    have hsolve := LinearOperator.solve_faultless hlinear.tangent hy hlinear.value tags linear.value
      descent.linearSolver
    refine hsolve.bind fun solution hsolution => .ok ?_
    rw [skeleton_scale, NewtonDescent.skeleton_normalize, hsolution]
  objective t ht := h.objective ht
  predicted diff hdiff := by
    obtain ⟨image, himage, hsize⟩ := hlinear.tangent diff hdiff
    have hfits : linear.value.leaves.length = image.leaves.length := by
      rw [leaves_length, leaves_length, hlinear.value, hsize]
    refine ⟨some (Scalar.ofNat 2 * Scalar.sum (Scalar.products linear.value.leaves image.leaves)), ?_⟩
    simp [LineSearchOptions.predictedChange, searchOptions, LinearOperator.ofFunction, himage, dot,
      dotLists, hfits]

variable {objective : Tree κ α → Checked (α × Aux)} {descent : Descent κ α}
  {options : LineSearchOptions κ α Aux} (h : SearchFits skeleton objective descent y options)

include h

theorem SearchFits.trial {diff : Tree κ α} (hdiff : diff.skeleton = skeleton) :
    ∃ value, y.add diff = .ok value ∧ value.skeleton = skeleton :=
  zipWith_of_skeleton _ h.point hdiff

theorem SearchFits.fixedStep (search : FixedStep α) :
    Faultless (fun found => found.value.skeleton = skeleton)
      (search.attempt objective descent y options) := by
  refine (h.compute search.size).bind fun step hdiff => ?_
  split
  · obtain ⟨value, hadd, hvalue⟩ := h.trial hdiff
    obtain ⟨answer, hanswer⟩ := h.objective value hvalue
    exact .checked_bind ⟨value, hadd, .checked_bind ⟨answer, hanswer, .ok hvalue⟩⟩
  · exact .ok h.point

/-- The induction is on the trials that are left. The best trial so far has the skeleton. -/
theorem SearchFits.trials (search : Backtracking α) (remaining : Nat) :
    ∀ (trial : Nat) (stepSize : α) (best : Option (Trial κ α Aux)),
      (∀ earlier ∈ best, earlier.value.skeleton = skeleton) →
      Faultless (fun found => found.value.skeleton = skeleton)
        (search.trials objective descent y options remaining trial stepSize best) := by
  induction remaining with
  | zero =>
      intro trial stepSize best hbest
      cases best with
      | none => exact .ok h.point
      | some earlier => exact .ok (hbest earlier rfl)
  | succ remaining ih =>
      intro trial stepSize best hbest
      refine (h.compute stepSize).bind fun step hdiff => ?_
      split
      · obtain ⟨value, hadd, hvalue⟩ := h.trial hdiff
        obtain ⟨answer, hanswer⟩ := h.objective value hvalue
        refine .checked_bind ⟨value, hadd, .checked_bind ⟨answer, hanswer, ?_⟩⟩
        dsimp only
        split
        · obtain ⟨change, hchange⟩ := h.predicted step.diff hdiff
          refine .checked_bind ⟨change, hchange, ?_⟩
          split
          · exact .ok hvalue
          · exact ih _ _ _ (Backtracking.forall_mem_better hbest hvalue)
        · exact ih _ _ best hbest
      · exact .ok h.point

theorem SearchFits.backtracking (search : Backtracking α) :
    Faultless (fun found => found.value.skeleton = skeleton)
      (search.attempt objective descent y options) := by
  unfold Backtracking.attempt
  split
  · exact h.trials search search.maxSteps 0 options.initStepSize none fun _ hnone => nomatch hnone
  · exact .ok h.point

/-- A search that fits ends at a tree of the skeleton, whatever became of it. -/
theorem SearchFits.search (search : StandardSearch α) :
    Faultless (fun found => found.value.skeleton = skeleton)
      (search.toLineSearch.search objective descent y options false) := by
  cases search with
  | fixed search =>
      rw [StandardSearch.search_fixed]
      exact h.fixedStep search
  | backtracking search =>
      rw [StandardSearch.search_backtracking]
      exact h.backtracking search

end Searching

/-! ### Runs -/

namespace IterativeSolver

variable {State : Type}

/-- What keeps the runs of a solver from faults: something holds at the start and after every step from
where it holds, and where it holds neither the step nor the test nor the residual faults. -/
structure SafeUnder (solver : IterativeSolver κ α Aux State) (residual : Residual κ α Aux)
    (tags : Tags) (y : Tree κ α) (holds : Tree κ α → State → Prop) : Prop where
  start : ∃ state, solver.start residual tags y = .ok state ∧ holds y state
  step : ∀ point state, holds point state →
    Faultless (fun next => holds next.1 next.2.1) (solver.step residual tags point state)
  stop : ∀ point state, holds point state →
    ∃ answer, solver.stop residual tags point state = .ok answer
  auxAt : ∀ point state, holds point state → ∃ aux, residual.auxAt point = .ok aux

namespace SafeUnder

variable {solver : IterativeSolver κ α Aux State} {residual : Residual κ α Aux} {tags : Tags}
  {y : Tree κ α} {holds : Tree κ α → State → Prop}
  (h : SafeUnder solver residual tags y holds)

include h

theorem advance {it : Iterate κ α Aux State} (hit : holds it.point it.state) :
    Faultless (fun it' => holds it'.point it'.state) (solver.advance residual tags it) := by
  have hstep := h.step it.point it.state hit
  unfold IterativeSolver.advance
  generalize solver.step residual tags it.point it.state = next at hstep
  cases hstep with
  | ok hnext => exact .ok hnext
  | reported error => exact .reported _

theorem iterateAt (k : Nat) :
    Faultless (fun it => holds it.point it.state) (solver.iterateAt residual tags y k) := by
  induction k with
  | zero =>
      obtain ⟨state, hstart, hy⟩ := h.start
      exact .checked_bind ⟨state, hstart, .ok hy⟩
  | succ k ih =>
      rw [IterativeSolver.iterateAt_succ_eq_bind]
      exact ih.bind fun it hit => h.advance hit

/-- The induction is on what is left of the budget. -/
theorem iterate (budget : Nat) {it : Iterate κ α Aux State} (hit : holds it.point it.state) :
    Faultless (fun last => holds last.1.point last.1.state)
      (solver.iterate residual tags budget it) := by
  induction budget generalizing it with
  | zero =>
      obtain ⟨answer, hstop⟩ := h.stop it.point it.state hit
      exact .checked_bind ⟨answer, hstop, .ok hit⟩
  | succ budget ih =>
      obtain ⟨⟨done, status⟩, hstop⟩ := h.stop it.point it.state hit
      refine .checked_bind ⟨(done, status), hstop, ?_⟩
      dsimp only
      split
      · exact .ok hit
      · exact (h.advance hit).bind fun it' hit' => ih hit'

theorem conclude (throwing : Bool) {it : Iterate κ α Aux State} (hit : holds it.point it.state)
    (status : Status) :
    Faultless (fun solution => holds solution.value solution.state)
      (conclude residual throwing it status) := by
  unfold IterativeSolver.conclude
  split
  · exact .reported _
  · cases it.aux with
    | some aux => exact .ok hit
    | none =>
        obtain ⟨aux, haux⟩ := h.auxAt it.point it.state hit
        exact .checked_bind ⟨aux, haux, .ok hit⟩

/-- A solve does not fault, and what keeps it from faults holds of its answer. -/
theorem solve (maxSteps : Nat) (throwing : Bool) :
    Faultless (fun solution => holds solution.value solution.state)
      (solver.solve residual y ⟨maxSteps, throwing, tags⟩) := by
  obtain ⟨state, hstart, hy⟩ := h.start
  refine .checked_bind ⟨state, hstart, ?_⟩
  exact (h.iterate maxSteps hy).bind fun last hlast => h.conclude throwing hlast last.2

end SafeUnder

end IterativeSolver

/-! ### The method -/

namespace GaussNewton

variable [Scalar α] [Dense.Kernels α] [Dense.Kernels.LawfulSvd α] {tolerance : Tolerance α}
  {norm : Norm α} {descent : NewtonDescent α} {search : StandardSearch α}
  {residual : Residual κ α Aux} {skeleton : Tree κ Unit} {m : Nat}

/-- The point and its last change have the skeleton. -/
def KeepsSkeleton (skeleton : Tree κ Unit) (y : Tree κ α) (state : GaussNewtonState κ α) : Prop :=
  y.skeleton = skeleton ∧ state.diff.skeleton = skeleton

/-- **A step without a fault.** From a point of the skeleton it leads to one, and so is the change. -/
theorem step_faultless (h : residual.HasShape skeleton m) (tags : Tags) {y : Tree κ α}
    (hy : y.skeleton = skeleton) (state : GaussNewtonState κ α) :
    Faultless (fun next => KeepsSkeleton skeleton next.1 next.2.1)
      ((newton tolerance norm descent search).step residual tags y state) := by
  obtain ⟨linear, hlinear, hshape⟩ := h.linearize hy
  have hfits := searchFits_newton h hshape hy descent tags state.stepSize
  refine .checked_bind ⟨linear, hlinear, ?_⟩
  refine (hfits.search search).bind fun found hfound => ?_
  obtain ⟨diff, hsub, hdiff⟩ := zipWith_of_skeleton (· - ·) hfound hy
  exact .checked_bind ⟨diff, hsub, .ok ⟨hfound, hdiff⟩⟩

theorem newton_safeUnder (h : residual.HasShape skeleton m) (tags : Tags) {y : Tree κ α}
    (hy : y.skeleton = skeleton) :
    (newton tolerance norm descent search).toSolver.SafeUnder residual tags y
      (KeepsSkeleton skeleton) where
  start := ⟨start y, rfl, hy, (skeleton_fill y _).trans hy⟩
  step point state hkeeps := step_faultless h tags hkeeps.1 state
  stop point state hkeeps := by
    have hsize : state.diff.size = point.size := size_eq_of_skeleton (hkeeps.2.trans hkeeps.1.symm)
    obtain ⟨settled, hsettled⟩ := pointSettled_eq_ok tolerance norm hsize
    show ∃ answer, stopping tolerance norm point state.diff state.objective state.previous
      state.status = .ok answer
    unfold stopping
    split
    · exact ⟨_, by rw [hsettled]; rfl⟩
    · exact ⟨_, rfl⟩
  auxAt point state hkeeps := h.auxAt hkeeps.1

/-- **No faults.** Suppose the residual and its derivative answer on the trees of the skeleton of the
starting point, with the same number of leaves everywhere. Then no run of Newton's descent with one of
the two line searches faults, in no step, in no test and not at its end, whatever the norm, the strategy
and the configuration are. Every point of the run and every change has the skeleton of the starting
point, and so have the answer and the point of a failure. The leafwise operations that do not check the
number of leaves that they are given would pass the check. -/
theorem newton_faultless (tolerance : Tolerance α) (norm : Norm α) (descent : NewtonDescent α)
    (search : StandardSearch α) {y : Tree κ α} (h : residual.HasShape y.skeleton m)
    (config : Config) :
    let solver := (newton tolerance norm descent search : GaussNewton κ α Aux).toSolver
    (∀ k, Faultless (fun it => KeepsSkeleton y.skeleton it.point it.state ∧
        ∃ answer, solver.stop residual config.tags it.point it.state = .ok answer)
        (solver.iterateAt residual config.tags y k)) ∧
      Faultless (fun solution => KeepsSkeleton y.skeleton solution.value solution.state)
        (solver.solve residual y config) ∧
      (∀ failure, solver.solve residual y config = .error (.reported failure) →
        failure.value.skeleton = y.skeleton) ∧
      ∀ (t : Tree κ α) (f : α → α) (j : Nat), t.rebuild (t.leaves.map f) = .ok (t.map f) ∧
        t.rebuild ((List.range t.leaves.length).map fun i => if i = j then 1 else 0) =
          .ok (t.unit j) := by
  intro solver
  have hsafe : solver.SafeUnder residual config.tags y (KeepsSkeleton y.skeleton) :=
    newton_safeUnder h config.tags rfl
  refine ⟨fun k => ?_, hsafe.solve config.maxSteps config.throw, fun failure hfailure => ?_,
    fun t f j => ⟨rebuild_map t f, rebuild_unit t j⟩⟩
  · exact (hsafe.iterateAt k).mono fun it hit => ⟨hit, hsafe.stop it.point it.state hit⟩
  · obtain ⟨it, hit, hpoint⟩ := iterateAt_of_failure hfailure
    have hkeeps := (hsafe.iterateAt failure.numSteps).of_ok hit
    rw [← hpoint]
    exact hkeeps.1

end GaussNewton

section Nested

/-- On the trees of any skeleton the residual of squares and its derivative answer a leaf for each
leaf. -/
theorem squaresResidual_hasShape [Scalar α] (t : Tree κ α) :
    (squaresResidual : Residual κ α Unit).HasShape t.skeleton t.size where
  value u hu := by
    refine ⟨_, (), rfl, ?_⟩
    show (u.withLeaves _).size + 0 = t.size
    rw [Nat.add_zero, size_withLeaves]
    exact size_eq_of_skeleton hu
  tangent u v hu hv := by
    obtain ⟨image, himage, hskeleton⟩ := zipWith_of_skeleton
      (fun d x => Scalar.ofNat 2 * x * d) hv hu
    refine ⟨.tuple [image], by simp [squaresResidual, himage], ?_⟩
    show image.size + 0 = t.size
    rw [Nat.add_zero]
    exact size_eq_of_skeleton hskeleton

instance : Dense.Kernels.LawfulSvd Float := Dense.standardKernels_lawfulSvd

/-- Floating point runs from a map of two arrays beside a scalar, with normalised directions and
backtracking: three steps, and a whole solve. -/
theorem newton_faultless_nested :
    let solver := (newton ⟨1e-8, 1e-8⟩ .rms { norm := some .two } (.backtracking .standard)).toSolver
    Faultless (fun it => KeepsSkeleton nestedPoint.skeleton it.point it.state)
        (solver.iterateAt squaresResidual {} nestedPoint 3) ∧
      Faultless (fun solution => KeepsSkeleton nestedPoint.skeleton solution.value solution.state)
        (solver.solve squaresResidual nestedPoint {}) := by
  intro solver
  obtain ⟨hruns, hsolve, -⟩ := newton_faultless ⟨1e-8, 1e-8⟩ .rms { norm := some .two }
    (.backtracking .standard) (squaresResidual_hasShape nestedPoint) {}
  exact ⟨(hruns 3).mono fun it hit => hit.1, hsolve⟩

end Nested

end LeastSquares
