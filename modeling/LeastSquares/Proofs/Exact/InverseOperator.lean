import LeastSquares.Proofs.Dense.OperatorEnds
import LeastSquares.Proofs.Exact.LinearMaps
import LeastSquares.Proofs.Exact.Shortest

/-!
# Inverse operators

Newton's descent applies the inverse of its operator when it is given one, and then nothing is solved.
Neither the operator nor the strategy of the linear solver plays a part, and since nothing is solved,
nothing can fail: there is a step whenever the inverse answers (`compute_of_image`).

In exact arithmetic a solve would find the same step. An operator takes the tree that solves it
exactly to the vector, so its inverse takes the vector back to this tree, and the two ways meet before
the direction is normalized (`inverse_agrees_with_solve`). A solve is exact as soon as it succeeds, if
its dense solver answers solutions of the normal equations only: there is a tree that the operator
takes to the vector, and then nothing else solves the normal equations (`SolvesExactly.of_normal`).
-/

namespace LeastSquares

open Matrix Exact LeastSquares.Tree

section Preference

variable {κ α : Type} [Scalar α] [Dense.Kernels α] {descent : NewtonDescent α}
  {options : DescentOptions κ α} {vector : Tree κ α} {inverse : LinearOperator κ α}

theorem direction_of_inverse (hvector : options.vector = some vector)
    (hinverse : options.inverse = some inverse) :
    descent.direction options = (do return ⟨← inverse.apply vector, .successful⟩) := by
  simp only [NewtonDescent.direction, hvector, hinverse]

/-- A given inverse is applied, and the step goes back along the image. -/
theorem compute_of_image (hvector : options.vector = some vector)
    (hinverse : options.inverse = some inverse) {image : Tree κ α}
    (happly : inverse.apply vector = .ok image) (stepSize : α) :
    descent.compute stepSize options =
      .ok ⟨(NewtonDescent.normalize descent.norm image).scale (-stepSize), .successful⟩ := by
  rw [NewtonDescent.compute, direction_of_inverse hvector hinverse, happly]
  rfl

/-- A fault of the inverse is passed on. -/
theorem compute_of_fault (hvector : options.vector = some vector)
    (hinverse : options.inverse = some inverse) {fault : Fault}
    (happly : inverse.apply vector = .error fault) (stepSize : α) :
    descent.compute stepSize options = .error (.broken fault) := by
  rw [NewtonDescent.compute, direction_of_inverse hvector hinverse, happly]
  rfl

end Preference

/-- Real trees of one skeleton are told apart by their leaves. -/
theorem IsReal.eq_of_leaves {κ : Type} {s t u : Tree κ Exact} (ht : IsReal s t) (hu : IsReal s u)
    (h : t.leaves = u.leaves) : t = u := by
  obtain ⟨x, rfl⟩ := ht
  obtain ⟨y, rfl⟩ := hu
  rw [leaves_withReals, leaves_withReals] at h
  rw [vector_injective h]

namespace LinearOperator

variable {κ : Type} {operator inverse : LinearOperator κ Exact} {vector : Tree κ Exact}
  {strategy : Dense.Strategy}

/-- Two operators undo one another on the trees of real numbers. -/
structure IsInverse (operator inverse : LinearOperator κ Exact) : Prop where
  /-- The image of a real tree of the domain is a real tree of the codomain, and is taken back. -/
  undoes {t : Tree κ Exact} (ht : IsReal operator.domain t) :
    ∃ image, operator.apply t = .ok image ∧ IsReal operator.codomain image ∧
      inverse.apply image = .ok t
  /-- Every real tree of the codomain is taken to a real tree of the domain, whose image it is. -/
  undone {t : Tree κ Exact} (ht : IsReal operator.codomain t) :
    ∃ preimage, inverse.apply t = .ok preimage ∧ IsReal operator.domain preimage ∧
      operator.apply preimage = .ok t

variable [Dense.Kernels Exact]

/-- A solve succeeds, and the operator takes the real tree it finds to the leaves of the vector. -/
def SolvesExactly (operator : LinearOperator κ Exact) (vector : Tree κ Exact)
    (strategy : Dense.Strategy) : Prop :=
  ∃ n image, operator.solve vector strategy = .ok ⟨n, .successful⟩ ∧ IsReal operator.domain n ∧
    operator.apply n = .ok image ∧ image.leaves = vector.leaves

/-- What an exact solve finds is what the inverse takes the vector to. -/
theorem SolvesExactly.exists_preimage (h : operator.SolvesExactly vector strategy)
    (hinverse : operator.IsInverse inverse) (hvector : IsReal operator.codomain vector) :
    ∃ n, operator.solve vector strategy = .ok ⟨n, .successful⟩ ∧ operator.apply n = .ok vector ∧
      inverse.apply vector = .ok n := by
  obtain ⟨n, image, hsolve, hreal, happly, hleaves⟩ := h
  obtain ⟨image', happly', himage, hback⟩ := hinverse.undoes hreal
  obtain rfl : image = image' := Except.ok.inj (happly.symm.trans happly')
  obtain rfl := himage.eq_of_leaves hvector hleaves
  exact ⟨n, hsolve, happly, hback⟩

/-- A successful solve of an operator that has an inverse is exact, where the dense solver answers
solutions of the normal equations only. -/
theorem SolvesExactly.of_normal
    {A : Matrix (Fin operator.codomain.size) (Fin operator.domain.size) ℝ} (hA : operator.HasMatrix A)
    (hmatrix : operator.matrix = .ok (toDense A)) (hinverse : operator.IsInverse inverse)
    {r : Fin operator.codomain.size → ℝ} (hnormal : SolvesNormalEquations strategy operator.tags A r)
    {solution : Solution κ Exact}
    (hsolve : operator.solve (operator.codomain.withReals r) strategy = .ok solution)
    (hstatus : solution.status = .successful) :
    operator.SolvesExactly (operator.codomain.withReals r) strategy := by
  obtain ⟨xs, hdense, hrebuild⟩ := answer_of_solve hmatrix hsolve hstatus
  rw [leaves_withReals] at hdense
  obtain ⟨x, rfl, hx⟩ := hnormal xs hdense
  rw [rebuild_eq_ok _ (vector_length x)] at hrebuild
  -- The inverse shows that the system has a solution at all.
  obtain ⟨_, -, ⟨z, rfl⟩, hz⟩ := hinverse.undone ⟨r, rfl⟩
  rw [hA z] at hz
  have hexact := mulVec_eq_of_normal hx (withReals_injective (Except.ok.inj hz))
  obtain ⟨value, status⟩ := solution
  obtain rfl : operator.domain.withReals x = value := Except.ok.inj hrebuild
  obtain rfl : status = .successful := hstatus
  exact ⟨_, _, hsolve, ⟨x, rfl⟩, hA x, by rw [hexact]⟩

end LinearOperator

/-- **An inverse in place of a solve.** When Newton's descent is given an inverse, its outcome is the
same for all strategies of the linear solver and all operators. It is never a reported error and never
a step of failing status: it is a successful step back along the image of the vector, and if the
inverse has no image for the vector, it is the fault of the inverse.

In exact arithmetic, where an operator is solved exactly, every inverse of the operator gives the step
of the solve, of the same status, for every norm and step size. The solve is exact if it succeeds and
its dense solver answers solutions of the normal equations only. -/
theorem inverse_agrees_with_solve {κ : Type} :
    (∀ (α : Type) [Scalar α] [Dense.Kernels α] (norm : Option (Norm α)) (stepSize : α)
      (vector : Tree κ α) (inverse : LinearOperator κ α), ∃ outcome : Outcome Error (DescentStep κ α),
      (∀ strategy operator mode, (⟨norm, strategy⟩ : NewtonDescent α).compute stepSize
        ⟨some vector, operator, some inverse, mode⟩ = outcome) ∧
      (∀ error, outcome ≠ Outcome.report error) ∧
      (∀ step, outcome = .ok step → step.status = .successful) ∧
      (∀ image, inverse.apply vector = .ok image →
        outcome = .ok ⟨(NewtonDescent.normalize norm image).scale (-stepSize), .successful⟩) ∧
      ∀ fault, inverse.apply vector = .error fault → outcome = .error (.broken fault)) ∧
    ∀ [Dense.Kernels Exact] (operator inverse : LinearOperator κ Exact), operator.IsInverse inverse →
      (∀ (vector : Tree κ Exact) (strategy : Dense.Strategy), IsReal operator.codomain vector →
        operator.SolvesExactly vector strategy →
        ∀ (norm : Option (Norm Exact)) (stepSize : Exact) (mode : Bool), ∃ step,
          step.status = .successful ∧
          (⟨norm, strategy⟩ : NewtonDescent Exact).compute stepSize
            ⟨some vector, none, some inverse, mode⟩ = .ok step ∧
          (⟨norm, strategy⟩ : NewtonDescent Exact).compute stepSize
            ⟨some vector, some operator, none, mode⟩ = .ok step) ∧
      ∀ A r strategy solution, operator.HasMatrix A → operator.matrix = .ok (toDense A) →
        SolvesNormalEquations strategy operator.tags A r →
        operator.solve (operator.codomain.withReals r) strategy = .ok solution →
        solution.status = .successful →
        operator.SolvesExactly (operator.codomain.withReals r) strategy := by
  refine ⟨fun α _ _ norm stepSize vector inverse => ?_, fun operator inverse hinverse => ⟨?_, ?_⟩⟩
  · cases happly : inverse.apply vector with
    | ok image =>
        refine ⟨.ok ⟨(NewtonDescent.normalize norm image).scale (-stepSize), .successful⟩,
          fun _ _ _ => compute_of_image rfl rfl happly stepSize, nofun, ?_, ?_, nofun⟩
        · intro step hstep
          cases hstep
          rfl
        · intro image' hsame
          cases hsame
          rfl
    | error fault =>
        refine ⟨.error (.broken fault), fun _ _ _ => compute_of_fault rfl rfl happly stepSize,
          nofun, nofun, nofun, ?_⟩
        intro fault' hsame
        cases hsame
        rfl
  · intro vector strategy hvector hexact norm stepSize mode
    obtain ⟨n, hsolve, -, hback⟩ := hexact.exists_preimage hinverse hvector
    refine ⟨_, rfl, compute_of_image rfl rfl hback stepSize, ?_⟩
    simp only [NewtonDescent.compute, NewtonDescent.direction, hsolve, Outcome.ok_bind,
      Outcome.pure_eq_ok]
  · intro A r strategy solution hA hmatrix hnormal hsolve hstatus
    exact LinearOperator.SolvesExactly.of_normal hA hmatrix hinverse hnormal hsolve hstatus

section Halving

open LinearOperator

theorem apply_ofSingle (a x : ℝ) :
    (ofSingle a).apply (.scalar (real x)) = .ok (.scalar (real (a * x))) := by
  have hproduct : (single (real a)).mulVec [real x] = [real (a * x)] := by
    have hentry : toDense !![a] = single (real a) := toDense_eq_single _
    rw [← hentry, ← vector_one fun _ => x, mulVec_toDense, mulVec_one]
    exact vector_one _
  show (Tree.scalar 0).rebuild ((single (real a)).mulVec [real x]) = _
  rw [hproduct]
  rfl

theorem hasMatrix_ofSingle (a : ℝ) : (ofSingle a).HasMatrix !![a] := by
  intro v
  change Fin 1 → ℝ at v
  exact (apply_ofSingle a (v 0)).trans
    (congrArg (fun w => Except.ok ((ofSingle a).codomain.withReals w)) (mulVec_one !![a] v).symm)

/-- A number that is not zero has an inverse. -/
theorem isInverse_ofSingle {a : ℝ} (ha : a ≠ 0) : (ofSingle a).IsInverse (ofSingle a⁻¹) where
  undoes := by
    rintro _ ⟨v, rfl⟩
    change Fin 1 → ℝ at v
    have hback : (ofSingle a⁻¹).apply (.scalar (real (a * v 0))) = .ok (.scalar (real (v 0))) := by
      rw [apply_ofSingle, inv_mul_cancel_left₀ ha]
    exact ⟨_, apply_ofSingle a (v 0), ⟨fun _ => a * v 0, rfl⟩, hback⟩
  undone := by
    rintro _ ⟨v, rfl⟩
    change Fin 1 → ℝ at v
    have hback : (ofSingle a).apply (.scalar (real (a⁻¹ * v 0))) = .ok (.scalar (real (v 0))) := by
      rw [apply_ofSingle, mul_inv_cancel_left₀ ha]
    exact ⟨_, apply_ofSingle a⁻¹ (v 0), ⟨fun _ => a⁻¹ * v 0, rfl⟩, hback⟩

/-- Half of six is three, and a step of size one goes back by three: beside an operator that has no
solution, without any operator, and by a solve of twice the step. -/
theorem inverse_agrees_with_solve_halving :
    (⟨none, .svd⟩ : NewtonDescent Exact).compute (real 1)
        ⟨some (.scalar (real 6)), some (ofSingle 0), some (ofSingle 2⁻¹), false⟩ =
      .ok ⟨.scalar (real (-3)), .successful⟩ ∧
    (⟨none, .standard⟩ : NewtonDescent Exact).compute (real 1)
        ⟨some (.scalar (real 6)), none, some (ofSingle 2⁻¹), false⟩ =
      (⟨none, .standard⟩ : NewtonDescent Exact).compute (real 1)
        ⟨some (.scalar (real 6)), some (ofSingle 2), none, false⟩ := by
  obtain ⟨hgiven, hexact⟩ := inverse_agrees_with_solve (κ := Unit)
  constructor
  · obtain ⟨outcome, hsame, -, -, himage, -⟩ :=
      hgiven Exact none (real 1) (.scalar (real 6)) (ofSingle 2⁻¹)
    have hstep : (Tree.scalar (real (2⁻¹ * 6)) : Tree Unit Exact).scale (-real 1) =
        .scalar (real (-3)) := by
      refine eq_of_skeleton_of_leaves rfl ?_
      rw [leaves_scale]
      norm_num [leaves]
    rw [hsame, himage _ (apply_ofSingle 2⁻¹ 6), NewtonDescent.normalize, hstep]
  · obtain ⟨hsteps, hsolves⟩ := hexact (ofSingle 2) (ofSingle 2⁻¹) (isInverse_ofSingle two_ne_zero)
    have hentry : toDense !![2] = single (real 2) := toDense_eq_single _
    have hdense := solve_single (A := !![2]) two_ne_zero fun _ => 6
    rw [hentry, vector_one fun _ => 6] at hdense
    have hsolve : (ofSingle 2).solve (.scalar (real 6)) .standard = _ := solve_of_answer rfl hdense rfl
    have hsolves := hsolves _ (fun _ => 6) .standard _ (hasMatrix_ofSingle 2)
      (congrArg Except.ok hentry.symm) (solvesNormalEquations_single _ _) hsolve rfl
    obtain ⟨step, -, hinverse, hsolved⟩ :=
      hsteps _ .standard ⟨fun _ => 6, rfl⟩ hsolves none (real 1) false
    exact hinverse.trans hsolved.symm

end Halving

end LeastSquares
