import LeastSquares.Proofs.Representation.Search

/-!
# Solving on the flat form

The run from a tree and the run from the plain array of its leaves, with residuals that correspond,
go through the same states: the points and the changes of one are the flat forms of those of the
other, and everything else is equal, step by step and at the end (`solve_lockstep`). Nothing is
assumed of the scalars, so this is equality bit by bit in every arithmetic.
-/

namespace LeastSquares

open LeastSquares.Tree GaussNewton

variable {κ α Aux : Type} {skeleton : Tree κ Unit}

/-- States that differ only in the structure of the last change. -/
structure StatesCorrespond (skeleton : Tree κ Unit) (state state' : GaussNewtonState κ α) :
    Prop where
  stepSize : state'.stepSize = state.stepSize
  diff : FlatOver skeleton state.diff state'.diff
  objective : state'.objective = state.objective
  previous : state'.previous = state.previous
  status : state'.status = state.status

/-- Iterates that differ only in the structure of point and change. -/
structure IteratesCorrespond (skeleton : Tree κ Unit)
    (it it' : Iterate κ α Aux (GaussNewtonState κ α)) : Prop where
  point : FlatOver skeleton it.point it'.point
  state : StatesCorrespond skeleton it.state it'.state
  aux : it'.aux = it.aux
  numSteps : it'.numSteps = it.numSteps

/-- Answers that differ only in the structure of point and change. -/
structure AnswersCorrespond (skeleton : Tree κ Unit)
    (solution solution' : Solution κ α Aux (GaussNewtonState κ α)) : Prop where
  value : FlatOver skeleton solution.value solution'.value
  status : solution'.status = solution.status
  aux : solution'.aux = solution.aux
  numSteps : solution'.numSteps = solution.numSteps
  state : StatesCorrespond skeleton solution.state solution'.state

/-- The same fault, or reports of one error after one number of steps at corresponding points. -/
inductive FailuresCorrespond (skeleton : Tree κ Unit) :
    Failure (SolveFailure κ α) → Failure (SolveFailure κ α) → Prop
  | broken (fault : Fault) : FailuresCorrespond skeleton (.broken fault) (.broken fault)
  | reported (error : Error) (numSteps : Nat) {t t' : Tree κ α} (h : FlatOver skeleton t t') :
      FailuresCorrespond skeleton (.reported ⟨error, t, numSteps⟩) (.reported ⟨error, t', numSteps⟩)

theorem toOutcome_corresponds {β γ : Type} {R : β → γ → Prop} {x : Checked β} {x' : Checked γ}
    (h : Outcome.Related Eq R x x') :
    Outcome.Related (@FailuresCorrespond κ α skeleton) R
      (Checked.toOutcome x) (Checked.toOutcome x') := by
  cases h with
  | ok hbc => exact .ok hbc
  | error he =>
      subst he
      exact .error (.broken _)

variable [Scalar α]

theorem start_flat (y : Tree κ α) :
    StatesCorrespond y.skeleton (GaussNewton.start y) (GaussNewton.start y.flat) :=
  ⟨rfl, ⟨skeleton_fill y _, (flat_fill y _).symm⟩, rfl, rfl, rfl⟩

theorem stop_flat (method : GaussNewton κ α Aux) {y y' : Tree κ α}
    {state state' : GaussNewtonState κ α} (hy : FlatOver skeleton y y')
    (hstate : StatesCorrespond skeleton state state') :
    method.stop y' state' = method.stop y state := by
  have hsettled : pointSettled method.tolerance method.norm y' state'.diff =
      pointSettled method.tolerance method.norm y state.diff := by
    refine (Outcome.Related.eq ?_).symm
    unfold pointSettled
    rw [hstate.diff.eq_flat]
    refine (zipWith_flat _ state.diff hy.leaves_eq).bind fun scaled scaled' hscaled => ?_
    exact .ok (by rw [Norm.apply, Norm.apply, hscaled.leaves_eq])
  unfold GaussNewton.stop stopping
  rw [hsettled, hstate.objective, hstate.previous, hstate.status]

section Running

variable [Dense.Kernels α] {residual residual' : Residual κ α Aux}

theorem step_flat (h : Residual.Corresponds skeleton residual residual') (tolerance : Tolerance α)
    (norm : Norm α) (descent : NewtonDescent α) (search : StandardSearch α) (tags : Tags)
    {y y' : Tree κ α} {state state' : GaussNewtonState κ α} (hy : FlatOver skeleton y y')
    (hstate : StatesCorrespond skeleton state state') :
    Outcome.Related Eq
      (fun r r' => FlatOver skeleton r.1 r'.1 ∧ StatesCorrespond skeleton r.2.1 r'.2.1 ∧
        r'.2.2 = r.2.2)
      ((newton tolerance norm descent search).step residual tags y state)
      ((newton tolerance norm descent search).step residual' tags y' state') := by
  obtain ⟨hskeleton, rfl⟩ := hy
  refine Outcome.Related.bind (Checked.toOutcome_related (h.linearize hskeleton)) ?_
  intro linear linear' hlinear
  rw [hstate.stepSize]
  refine Outcome.Related.bind
    (search_flat h hlinear hskeleton tags state.stepSize descent search) ?_
  intro found found' hfound
  rw [hfound.value.eq_flat]
  refine Outcome.Related.bind
    (Checked.toOutcome_related (zipWith_flat _ found.value (leaves_flat y))) ?_
  intro diff diff' hdiff
  refine .ok ⟨⟨hfound.value.skeleton_eq, rfl⟩, ⟨?_, ?_, ?_, ?_, ?_⟩, hfound.aux⟩
  · exact congrArg LineSearchState.nextInit hfound.state
  · exact ⟨hdiff.skeleton_eq.trans hfound.value.skeleton_eq, hdiff.eq_flat⟩
  · simp [searchOptions, sumSquares, hlinear.value]
  · exact hstate.objective
  · exact congrArg stepStatus hfound.status

theorem advance_flat (h : Residual.Corresponds skeleton residual residual')
    (tolerance : Tolerance α) (norm : Norm α) (descent : NewtonDescent α)
    (search : StandardSearch α) (tags : Tags)
    {it it' : Iterate κ α Aux (GaussNewtonState κ α)} (hit : IteratesCorrespond skeleton it it') :
    Outcome.Related (FailuresCorrespond skeleton) (IteratesCorrespond skeleton)
      ((newton tolerance norm descent search).toSolver.advance residual tags it)
      ((newton tolerance norm descent search).toSolver.advance residual' tags it') := by
  have hstep := step_flat h tolerance norm descent search tags hit.point hit.state
  unfold IterativeSolver.advance
  dsimp only [toSolver]
  rw [hit.numSteps]
  generalize (newton tolerance norm descent search).step residual tags it.point it.state = x at hstep
  generalize (newton tolerance norm descent search).step residual' tags it'.point it'.state = x'
    at hstep
  cases hstep with
  | ok hr => exact .ok ⟨hr.1, hr.2.1, congrArg some hr.2.2, rfl⟩
  | @error e e' he =>
      subst he
      cases e with
      | broken fault => exact .error (.broken fault)
      | reported error => exact .error (.reported error it.numSteps hit.point)

/-- Step by step: the induction is on the number of steps. -/
theorem iterateAt_flat {y : Tree κ α} (h : Residual.Corresponds y.skeleton residual residual')
    (tolerance : Tolerance α) (norm : Norm α) (descent : NewtonDescent α)
    (search : StandardSearch α) (tags : Tags) (k : Nat) :
    Outcome.Related (FailuresCorrespond y.skeleton) (IteratesCorrespond y.skeleton)
      ((newton tolerance norm descent search).toSolver.iterateAt residual tags y k)
      ((newton tolerance norm descent search).toSolver.iterateAt residual' tags y.flat k) := by
  induction k with
  | zero => exact .ok ⟨⟨rfl, rfl⟩, start_flat y, rfl, rfl⟩
  | succ k ih =>
      rw [IterativeSolver.iterateAt_succ_eq_bind, IterativeSolver.iterateAt_succ_eq_bind]
      exact ih.bind fun it it' hit => advance_flat h tolerance norm descent search tags hit

/-- Up to the end: the induction is on what is left of the budget. -/
theorem iterate_flat (h : Residual.Corresponds skeleton residual residual')
    (tolerance : Tolerance α) (norm : Norm α) (descent : NewtonDescent α)
    (search : StandardSearch α) (tags : Tags) (budget : Nat) :
    ∀ it it' : Iterate κ α Aux (GaussNewtonState κ α), IteratesCorrespond skeleton it it' →
      Outcome.Related (FailuresCorrespond skeleton)
        (fun r r' => IteratesCorrespond skeleton r.1 r'.1 ∧ r'.2 = r.2)
        ((newton tolerance norm descent search).toSolver.iterate residual tags budget it)
        ((newton tolerance norm descent search).toSolver.iterate residual' tags budget it') := by
  have hstop (it it' : Iterate κ α Aux (GaussNewtonState κ α))
      (hit : IteratesCorrespond skeleton it it') :
      Outcome.Related (@FailuresCorrespond κ α skeleton) Eq
        (Checked.toOutcome
          ((newton tolerance norm descent search : GaussNewton κ α Aux).stop it.point it.state))
        (Checked.toOutcome
          ((newton tolerance norm descent search : GaussNewton κ α Aux).stop it'.point
            it'.state)) :=
    toOutcome_corresponds (.of_eq (stop_flat _ hit.point hit.state).symm)
  induction budget with
  | zero =>
      intro it it' hit
      refine Outcome.Related.bind (hstop it it' hit) ?_
      rintro ⟨done, status⟩ _ rfl
      exact .ok ⟨hit, rfl⟩
  | succ budget ih =>
      intro it it' hit
      refine Outcome.Related.bind (hstop it it' hit) ?_
      rintro ⟨done, status⟩ _ rfl
      dsimp only
      split
      · exact .ok ⟨hit, rfl⟩
      · exact (advance_flat h tolerance norm descent search tags hit).bind ih

omit [Scalar α] [Dense.Kernels α] in
theorem conclude_flat (h : Residual.Corresponds skeleton residual residual') (throwing : Bool)
    {it it' : Iterate κ α Aux (GaussNewtonState κ α)} (hit : IteratesCorrespond skeleton it it')
    (status : Status) :
    Outcome.Related (FailuresCorrespond skeleton) (AnswersCorrespond skeleton)
      (IterativeSolver.conclude residual throwing it status)
      (IterativeSolver.conclude residual' throwing it' status) := by
  unfold IterativeSolver.conclude
  rw [hit.numSteps, hit.aux, hit.point.eq_flat, h.auxAt hit.point.skeleton_eq]
  split
  · exact .error (.reported _ _ ⟨hit.point.skeleton_eq, rfl⟩)
  · cases it.aux with
    | some aux => exact .ok ⟨⟨hit.point.skeleton_eq, rfl⟩, rfl, rfl, rfl, hit.state⟩
    | none =>
        refine Outcome.Related.bind (toOutcome_corresponds (.of_eq rfl)) ?_
        rintro aux _ rfl
        exact .ok ⟨⟨hit.point.skeleton_eq, rfl⟩, rfl, rfl, rfl, hit.state⟩

/-- **Lockstep.** Two runs of one method, from a tree and from the plain array of its leaves, with
residuals that correspond over the tree: after every number of steps both fail alike or their iterates
differ only in the structure of point and change, and so do their answers. -/
theorem solve_lockstep {y : Tree κ α} (h : Residual.Corresponds y.skeleton residual residual')
    (tolerance : Tolerance α) (norm : Norm α) (descent : NewtonDescent α)
    (search : StandardSearch α) (config : Config) :
    (∀ k, Outcome.Related (FailuresCorrespond y.skeleton) (IteratesCorrespond y.skeleton)
        ((newton tolerance norm descent search).toSolver.iterateAt residual config.tags y k)
        ((newton tolerance norm descent search).toSolver.iterateAt residual' config.tags
          y.flat k)) ∧
      Outcome.Related (FailuresCorrespond y.skeleton) (AnswersCorrespond y.skeleton)
        ((newton tolerance norm descent search).toSolver.solve residual y config)
        ((newton tolerance norm descent search).toSolver.solve residual' y.flat config) := by
  refine ⟨iterateAt_flat h tolerance norm descent search config.tags, ?_⟩
  have hstart : @IteratesCorrespond κ α Aux y.skeleton ⟨y, GaussNewton.start y, none, 0⟩
      ⟨y.flat, GaussNewton.start y.flat, none, 0⟩ := ⟨⟨rfl, rfl⟩, start_flat y, rfl, rfl⟩
  refine (iterate_flat h tolerance norm descent search config.tags config.maxSteps _ _
    hstart).bind ?_
  rintro ⟨it, status⟩ ⟨it', status'⟩ ⟨hit, hstatus⟩
  obtain rfl : status' = status := hstatus
  exact conclude_flat h config.throw hit status'

end Running

/-- The squares of the leaves less two, as a tuple of one tree. -/
def squaresResidual : Residual κ α Unit where
  value t := .ok (.tuple [t.map fun x => x * x - Scalar.ofNat 2], ())
  tangent t v := do return .tuple [← v.zipWith (fun d x => Scalar.ofNat 2 * x * d) t]

/-- The squares of the leaves less two, without a structure. -/
def plainSquaresResidual : Residual κ α Unit where
  value t := .ok (t.map fun x => x * x - Scalar.ofNat 2, ())
  tangent t v := v.zipWith (fun d x => Scalar.ofNat 2 * x * d) t

theorem squaresResidual_corresponds :
    @Residual.Corresponds κ α Unit skeleton squaresResidual plainSquaresResidual where
  value t _ := .ok ⟨by simp [leaves, leavesOfParts], rfl⟩
  tangent t v _ _ := by
    have hzip := zipWith_flat (fun d x => Scalar.ofNat 2 * x * d) v (leaves_flat t)
    dsimp only [squaresResidual, plainSquaresResidual]
    generalize v.zipWith (fun d x => Scalar.ofNat 2 * x * d) t = image at hzip ⊢
    generalize v.flat.zipWith (fun d x => Scalar.ofNat 2 * x * d) t.flat = image' at hzip ⊢
    cases hzip with
    | ok hu => exact .ok (by simp [leaves, leavesOfParts, hu.leaves_eq])
    | error he => exact .error he

/-- A map of two arrays beside a scalar. -/
def nestedPoint : Tree String Float :=
  .tuple [.keyed "gain, offset" [.array .growable [1], .array .fixed [2, 3]], .scalar 4]

/-- A run from a nested tree and the run from the four numbers in it. -/
theorem solve_lockstep_nested :
    nestedPoint.flat = .array .growable [1, 2, 3, 4] ∧
      Outcome.Related (FailuresCorrespond nestedPoint.skeleton)
        (AnswersCorrespond nestedPoint.skeleton)
        ((newton ⟨1e-8, 1e-8⟩ .rms { norm := some .two } (.backtracking .standard)).toSolver.solve
          squaresResidual nestedPoint {})
        ((newton ⟨1e-8, 1e-8⟩ .rms { norm := some .two } (.backtracking .standard)).toSolver.solve
          plainSquaresResidual nestedPoint.flat {}) :=
  ⟨rfl, (solve_lockstep squaresResidual_corresponds ⟨1e-8, 1e-8⟩ .rms { norm := some .two }
    (.backtracking .standard) {}).2⟩

end LeastSquares
