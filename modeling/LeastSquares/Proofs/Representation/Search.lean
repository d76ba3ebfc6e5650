import LeastSquares.Proofs.Iteration.Newton
import LeastSquares.Proofs.Representation.Operator

/-!
# Descent and line search on the flat form

Newton's descent reads the solution of a linear system, brings it to unit length by a norm of its
leaves and scales it, so its step on the flat form is the flat form of its step. A line search
compares objectives and predicted changes, which are scalars and the same on both sides; by induction
on the trials that are left it takes the same decisions, and ends at a tree on one side and at its
flat form on the other.
-/

namespace LeastSquares

open LeastSquares.Tree GaussNewton

variable {κ α Aux : Type} [Scalar α] {skeleton : Tree κ Unit}

namespace NewtonDescent

theorem flat_normalize (norm : Option (Norm α)) (t : Tree κ α) :
    (normalize norm t).flat = normalize norm t.flat := by
  cases norm with
  | none => rfl
  | some norm =>
      have hlength : norm.apply t.flat = norm.apply t := rfl
      simp only [normalize, hlength]
      split
      · exact flat_scale t _
      · rfl

@[simp] theorem skeleton_normalize (norm : Option (Norm α)) (t : Tree κ α) :
    (normalize norm t).skeleton = t.skeleton := by
  cases norm with
  | none => rfl
  | some norm =>
      simp only [normalize]
      split
      · exact skeleton_scale t _
      · rfl

end NewtonDescent

/-- Steps with the same status, on a tree and on its flat form. -/
def StepsCorrespond (skeleton : Tree κ Unit) (step step' : DescentStep κ α) : Prop :=
  FlatOver skeleton step.diff step'.diff ∧ step'.status = step.status

/-- Searches with the same end, at a tree and at its flat form. -/
structure SearchesCorrespond (skeleton : Tree κ Unit) (found found' : LineSearchSolution κ α Aux) :
    Prop where
  value : FlatOver skeleton found.value found'.value
  status : found'.status = found.status
  state : found'.state = found.state
  aux : found'.aux = found.aux

/-- Trials with the same objective and step size, at a tree and at its flat form. -/
structure TrialsCorrespond (skeleton : Tree κ Unit) (trial trial' : Trial κ α Aux) : Prop where
  value : FlatOver skeleton trial.value trial'.value
  objective : trial'.objective = trial.objective
  aux : trial'.aux = trial.aux
  stepSize : trial'.stepSize = trial.stepSize

section Descending

variable {linear linear' : Linearization κ α Aux} {y : Tree κ α}

theorem compute_flat [Dense.Kernels α] (hlinear : linear.Corresponds skeleton linear')
    (hy : y.skeleton = skeleton) (tags : Tags) (init : α) (descent : NewtonDescent α)
    (stepSize : α) :
    Outcome.Related Eq (StepsCorrespond skeleton)
      (descent.compute stepSize (searchOptions linear tags y init).descentOptions)
      (descent.compute stepSize (searchOptions linear' tags y.flat init).descentOptions) := by
  have hsolve : Outcome.Related Eq (LinearSolutionsCorrespond skeleton)
      ((LinearOperator.ofFunction linear.tangent y linear.value tags).solve linear.value
        descent.linearSolver)
      ((LinearOperator.ofFunction linear'.tangent y.flat linear'.value tags).solve linear'.value
        descent.linearSolver) := by
    apply solve_flat
    · exact materialize_flat hlinear hy
    · rfl
    · exact ⟨hy, rfl⟩
    · exact hlinear.value
  refine Outcome.Related.bind hsolve ?_
  rintro solution solution' ⟨hvalue, hstatus⟩
  refine .ok ⟨⟨?_, ?_⟩, hstatus⟩
  · simpa using hvalue.skeleton_eq
  · show (NewtonDescent.normalize descent.norm solution'.value).scale (-stepSize) = _
    rw [hvalue.eq_flat, ← NewtonDescent.flat_normalize, ← flat_scale]

theorem searchObjective_flat (hlinear : linear.Corresponds skeleton linear') (tags : Tags)
    (init : α) :
    (searchOptions linear' tags y.flat init).objective =
      (searchOptions linear tags y init).objective := by
  simp [searchOptions, sumSquares, hlinear.value]

theorem predictedChange_flat (hlinear : linear.Corresponds skeleton linear') (tags : Tags) (init : α)
    {diff diff' : Tree κ α} (hdiff : FlatOver skeleton diff diff') :
    (searchOptions linear' tags y.flat init).predictedChange diff' =
      (searchOptions linear tags y init).predictedChange diff := by
  obtain rfl := hdiff.eq_flat
  refine (Outcome.Related.eq ?_).symm
  refine (hlinear.tangent diff hdiff.skeleton_eq).bind fun image image' himage => ?_
  show Outcome.Related Eq Eq
    (do return some (Scalar.ofNat 2 * (← linear.value.dot image)))
    (do return some (Scalar.ofNat 2 * (← linear'.value.dot image')))
  rw [dot_congr hlinear.value himage]
  exact .of_eq rfl

end Descending

section Searching

variable [Dense.Kernels α] {residual residual' : Residual κ α Aux}
  {linear linear' : Linearization κ α Aux} {y : Tree κ α}

theorem fixedStep_flat (h : Residual.Corresponds skeleton residual residual')
    (hlinear : linear.Corresponds skeleton linear') (hy : y.skeleton = skeleton) (tags : Tags)
    (init : α) (descent : NewtonDescent α) (search : FixedStep α) :
    Outcome.Related Eq (SearchesCorrespond skeleton)
      (search.attempt residual.objective descent.toDescent y (searchOptions linear tags y init))
      (search.attempt residual'.objective descent.toDescent y.flat
        (searchOptions linear' tags y.flat init)) := by
  refine (compute_flat hlinear hy tags init descent search.size).bind ?_
  rintro step step' ⟨hdiff, hstatus⟩
  rw [hstatus]
  split
  · refine Outcome.Related.bind
      (Checked.toOutcome_related (zipWith_flat _ y hdiff.leaves_eq)) ?_
    intro value value' hvalue
    rw [hvalue.eq_flat, h.objective (hvalue.skeleton_eq.trans hy)]
    refine Outcome.Related.bind (.of_eq rfl) ?_
    rintro ⟨f, aux⟩ _ rfl
    exact .ok ⟨⟨hvalue.skeleton_eq.trans hy, rfl⟩, rfl, rfl, rfl⟩
  · exact .ok ⟨⟨hy, rfl⟩, rfl, rfl, hlinear.aux⟩

omit [Dense.Kernels α] in
theorem better_flat {best best' : Option (Trial κ α Aux)} {trial trial' : Trial κ α Aux}
    (hbest : Option.Rel (TrialsCorrespond skeleton) best best')
    (h : TrialsCorrespond skeleton trial trial') :
    TrialsCorrespond skeleton (Backtracking.better best trial)
      (Backtracking.better best' trial') := by
  cases hbest with
  | none => exact h
  | some hearlier =>
      unfold Backtracking.better
      dsimp only
      rw [h.objective, hearlier.objective]
      split
      · exact h
      · exact hearlier

/-- The induction is on the trials that are left; the best trial so far is carried along. -/
theorem trials_flat (h : Residual.Corresponds skeleton residual residual')
    (hlinear : linear.Corresponds skeleton linear') (hy : y.skeleton = skeleton) (tags : Tags)
    (init : α) (descent : NewtonDescent α) (search : Backtracking α) (remaining : Nat) :
    ∀ (trial : Nat) (stepSize : α) (best best' : Option (Trial κ α Aux)),
      Option.Rel (TrialsCorrespond skeleton) best best' →
      Outcome.Related Eq (SearchesCorrespond skeleton)
        (search.trials residual.objective descent.toDescent y (searchOptions linear tags y init)
          remaining trial stepSize best)
        (search.trials residual'.objective descent.toDescent y.flat
          (searchOptions linear' tags y.flat init) remaining trial stepSize best') := by
  induction remaining with
  | zero =>
      intro trial stepSize best best' hbest
      cases hbest with
      | none => exact .ok ⟨⟨hy, rfl⟩, rfl, rfl, hlinear.aux⟩
      | some hbest =>
          exact .ok ⟨hbest.value, rfl, by simp [Backtracking.exhausted, hbest.stepSize], hbest.aux⟩
  | succ remaining ih =>
      intro trial stepSize best best' hbest
      refine (compute_flat hlinear hy tags init descent stepSize).bind ?_
      rintro step step' ⟨hdiff, hstatus⟩
      rw [hstatus]
      split
      · refine Outcome.Related.bind
          (Checked.toOutcome_related (zipWith_flat _ y hdiff.leaves_eq)) ?_
        intro value value' hvalue
        have hvalue' := hvalue.skeleton_eq.trans hy
        rw [hvalue.eq_flat, h.objective hvalue']
        refine Outcome.Related.bind (.of_eq rfl) ?_
        rintro ⟨f, aux⟩ _ rfl
        dsimp only
        split
        · rw [predictedChange_flat hlinear tags init hdiff]
          refine Outcome.Related.bind (.of_eq rfl) ?_
          rintro predicted _ rfl
          rw [searchObjective_flat hlinear]
          split
          · exact .ok ⟨⟨hvalue', rfl⟩, rfl, rfl, rfl⟩
          · exact ih _ _ _ _ (.some (better_flat hbest ⟨⟨hvalue', rfl⟩, rfl, rfl, rfl⟩))
        · exact ih _ _ _ _ hbest
      · exact .ok ⟨⟨hy, rfl⟩, rfl, rfl, hlinear.aux⟩

theorem search_flat (h : Residual.Corresponds skeleton residual residual')
    (hlinear : linear.Corresponds skeleton linear') (hy : y.skeleton = skeleton) (tags : Tags)
    (init : α) (descent : NewtonDescent α) (search : StandardSearch α) :
    Outcome.Related Eq (SearchesCorrespond skeleton)
      (search.toLineSearch.search residual.objective descent.toDescent y
        (searchOptions linear tags y init) false)
      (search.toLineSearch.search residual'.objective descent.toDescent y.flat
        (searchOptions linear' tags y.flat init) false) := by
  cases search with
  | fixed search =>
      exact (fixedStep_flat h hlinear hy tags init descent search).bind fun _ _ hfound => .ok hfound
  | backtracking search =>
      refine Outcome.Related.bind (R := SearchesCorrespond skeleton) ?_ fun _ _ hfound => .ok hfound
      unfold Backtracking.attempt
      rw [searchObjective_flat hlinear]
      split
      · exact trials_flat h hlinear hy tags init descent search search.maxSteps 0 init _ _ .none
      · exact .ok ⟨⟨hy, rfl⟩, rfl, rfl, hlinear.aux⟩

end Searching

end LeastSquares
