import LeastSquares.Proofs.Exact.AffineRun
import LeastSquares.Proofs.Iteration.Comparison
import LeastSquares.Proofs.Iteration.FirstTest
import LeastSquares.Proofs.Stopping

/-!
# Looser tolerances

A larger tolerance allows every change that a smaller one allows. That is so for a single leaf,
whose change is divided by a bound that only grows with the tolerances: if the quotient is a number
at all, then so is the quotient by the larger bound, and it is no larger. A bound of zero allows no
change, not even none, since zero by zero is no number. The norms of this library carry the
comparison from the leaves to the tree, since a norm below one means that every leaf is a number.

So the stopping test with larger tolerances is looser, and a run under it ends no later
(`solve_looser`).
-/

namespace LeastSquares

open Matrix Exact LeastSquares.Tree GaussNewton

namespace Exact

/-! ### Comparing exact numbers -/

section Comparisons

@[simp] theorem real_lt_posInf (x : ℝ) : Scalar.lt (real x) posInf = true := rfl

@[simp] theorem negInf_lt_real (x : ℝ) : Scalar.lt negInf (real x) = true := rfl

@[simp] theorem negInf_lt_posInf : Scalar.lt negInf posInf = true := rfl

@[simp] theorem lt_negInf (a : Exact) : Scalar.lt a negInf = false := by cases a <;> rfl

@[simp] theorem lt_nan (a : Exact) : Scalar.lt a nan = false := by cases a <;> rfl

theorem lt_of_lt_of_lt {a b c : Exact} (hab : Scalar.lt a b = true) (hbc : Scalar.lt b c = true) :
    Scalar.lt a c = true := by
  cases a <;> cases b <;> cases c <;> simp at hab hbc ⊢
  exact hab.trans hbc

/-- What is below a bound is so with every number that is not above it. -/
theorem lt_of_not_lt {a b c : Exact} (hc : Scalar.isNaN c = false) (hac : Scalar.lt a c = false)
    (hab : Scalar.lt a b = true) : Scalar.lt c b = true := by
  cases a <;> cases b <;> cases c <;> simp at hc hac hab ⊢
  exact hac.trans_lt hab

/-- The larger of two numbers is below a bound exactly when both are. -/
theorem scalarMax_lt {a c : Exact} (ha : Scalar.isNaN a = false) (hc : Scalar.isNaN c = false)
    (b : Exact) :
    Scalar.lt (Scalar.max a c) b = true ↔ Scalar.lt a b = true ∧ Scalar.lt c b = true := by
  unfold Scalar.max
  rw [ha, Bool.false_or]
  by_cases hac : Scalar.lt a c = true
  · rw [if_pos hac]
    exact ⟨fun hcb => ⟨lt_of_lt_of_lt hac hcb, hcb⟩, And.right⟩
  · rw [if_neg hac]
    exact ⟨fun hab => ⟨hab, lt_of_not_lt hc (Bool.eq_false_iff.mpr hac) hab⟩, And.left⟩

theorem lt_real_of_le {a : Exact} {b b' : ℝ} (hle : b ≤ b') (h : Scalar.lt a (real b) = true) :
    Scalar.lt a (real b') = true := by
  cases a with
  | real x => exact decide_eq_true ((of_decide_eq_true h).trans_le hle)
  | posInf => exact h
  | negInf => rfl
  | nan => exact h

end Comparisons

/-! ### Quotients that shrink -/

section Quotients

/-- Where the first scalar is a number, so is the second, and it has no larger magnitude. -/
def Shrinks (a a' : Exact) : Prop := ∀ r, a = real r → ∃ r', a' = real r' ∧ |r'| ≤ |r|

theorem div_one_eq (d : Exact) : d / real 1 = d := by
  cases d with
  | real x => rw [real_div x one_ne_zero, div_one]
  | posInf => exact if_neg (not_lt.mpr zero_le_one)
  | negInf => exact if_neg (not_lt.mpr zero_le_one)
  | nan => rfl

theorem div_nan (d : Exact) : d / nan = nan := by cases d <;> rfl

/-- Dividing by a larger bound shrinks. -/
theorem shrinks_div {b b' : ℝ} (hb : 0 ≤ b) (hle : b ≤ b') (d : Exact) :
    Shrinks (d / real b) (d / real b') := by
  intro r hr
  obtain ⟨hne, x, rfl, rfl⟩ := div_real_eq_real hr
  have hpos : 0 < b := lt_of_le_of_ne hb hne.symm
  refine ⟨x / b', real_div x (hpos.trans_le hle).ne', ?_⟩
  rw [abs_div, abs_div, abs_of_pos hpos, abs_of_pos (hpos.trans_le hle)]
  exact div_le_div_of_nonneg_left (abs_nonneg x) hpos hle

end Quotients

end Exact

/-! ### Norms of quotients that shrink -/

section Norms

variable {norm : Norm Exact} {xs xs' : List Exact}

/-- A step of the largest magnitude stays below a bound exactly when both of its sides are. -/
theorem maxMagnitudeStep_lt (largest x b : Exact) :
    Scalar.lt (maxMagnitudeStep largest x) b = true ↔
      Scalar.lt largest b = true ∧ Scalar.lt (Scalar.abs x) b = true := by
  unfold maxMagnitudeStep
  by_cases hnan : (Scalar.isNaN largest || Scalar.isNaN x) = true
  · rw [if_pos hnan]
    -- What is no number is not below the bound on either side.
    have hnone : ∀ a : Exact, Scalar.isNaN a = true → a = nan := by
      intro a ha
      cases a <;> first | rfl | cases ha
    rcases Bool.or_eq_true_iff.mp hnan with hlargest | hx
    · rw [hnone largest hlargest]
      simp [Scalar.nan]
    · rw [hnone x hx]
      have habs : (Scalar.abs nan : Exact) = nan := rfl
      simp [Scalar.nan, habs]
  · rw [if_neg hnan]
    obtain ⟨hlargest, hx⟩ := Bool.or_eq_false_iff.mp (Bool.eq_false_iff.mpr hnan)
    have habs : Scalar.isNaN (Scalar.abs x) = false := by cases x <;> first | rfl | cases hx
    exact scalarMax_lt hlargest habs b

theorem maxMagnitude_lt_one (xs : List Exact) :
    Scalar.lt (maxMagnitude xs) 1 = true ↔ ∀ x ∈ xs, Scalar.lt (Scalar.abs x) 1 = true := by
  have hfold (largest : Exact) : Scalar.lt (xs.foldl maxMagnitudeStep largest) 1 = true ↔
      Scalar.lt largest 1 = true ∧ ∀ x ∈ xs, Scalar.lt (Scalar.abs x) 1 = true := by
    induction xs generalizing largest with
    | nil => simp
    | cons x xs ih =>
        rw [List.foldl_cons, ih, maxMagnitudeStep_lt, List.forall_mem_cons, and_assoc]
  have hzero : Scalar.lt (0 : Exact) 1 = true := decide_eq_true one_pos
  rw [maxMagnitude, hfold, hzero, eq_self_iff_true, true_and]

/-- The root of a sum of squares is that of a vector, or too large, or no number. -/
theorem rootSumSquares_cases (xs : List Exact) :
    (∃ n, ∃ r : Fin n → ℝ, xs = vector r) ∨
      rootSumSquares xs = posInf ∨ rootSumSquares xs = nan := by
  have hroot : rootSumSquares xs = Scalar.sqrt (sumSquaresOf xs) := rfl
  cases hsum : sumSquaresOf xs with
  | real x => exact .inl ⟨_, exists_vector_of_sumSquaresOf (by rw [hsum]; rfl)⟩
  | posInf => exact .inr (.inl (by rw [hroot, hsum]; rfl))
  | negInf => exact .inr (.inr (by rw [hroot, hsum]; rfl))
  | nan => exact .inr (.inr (by rw [hroot, hsum]; rfl))

theorem rootSumSquares_vector {n : Nat} (r : Fin n → ℝ) :
    rootSumSquares (vector r) = real (Real.sqrt (r ⬝ᵥ r)) := by
  rw [rootSumSquares, sumSquaresOf_vector, sqrt_real (dotProduct_self_nonneg r)]

theorem abs_lt_one_of_shrinks {x x' : Exact} (h : Shrinks x x')
    (hlt : Scalar.lt (Scalar.abs x) 1 = true) : Scalar.lt (Scalar.abs x') 1 = true := by
  cases x with
  | real r =>
      obtain ⟨r', rfl, hle⟩ := h r rfl
      exact decide_eq_true (hle.trans_lt (of_decide_eq_true hlt))
  | posInf => cases hlt
  | negInf => cases hlt
  | nan => cases hlt

/-- A list that the entries of a vector shrink to is a vector. -/
theorem exists_vector_of_shrinks {n : Nat} {r : Fin n → ℝ}
    (h : List.Forall₂ Shrinks (vector r) xs') :
    ∃ r' : Fin n → ℝ, xs' = vector r' ∧ ∀ i, |r' i| ≤ |r i| := by
  induction n generalizing xs' with
  | zero =>
      have hnil : xs' = [] := List.forall₂_nil_left_iff.mp h
      exact ⟨r, hnil, fun i => i.elim0⟩
  | succ n ih =>
      rw [vector_succ] at h
      obtain ⟨x, rest, hx, hrest, rfl⟩ := List.forall₂_cons_left_iff.mp h
      obtain ⟨x₀, rfl, hle⟩ := hx (r 0) rfl
      obtain ⟨r', rfl, hle'⟩ := ih hrest
      refine ⟨Fin.cons x₀ r', ?_, fun i => ?_⟩
      · rw [vector_succ]
        rfl
      · cases i using Fin.cases with
        | zero => exact hle
        | succ i => exact hle' i

theorem sqrt_dotProduct_le {n : Nat} {r r' : Fin n → ℝ} (h : ∀ i, |r' i| ≤ |r i|) :
    Real.sqrt (r' ⬝ᵥ r') ≤ Real.sqrt (r ⬝ᵥ r) := by
  apply Real.sqrt_le_sqrt
  exact Finset.sum_le_sum fun i _ => abs_le_iff_mul_self_le.mp (h i)

theorem rootSumSquares_div_lt_one {q : ℝ} (hq : 0 < q) (h : List.Forall₂ Shrinks xs xs')
    (hlt : Scalar.lt (rootSumSquares xs / real q) 1 = true) :
    Scalar.lt (rootSumSquares xs' / real q) 1 = true := by
  rcases rootSumSquares_cases xs with ⟨n, r, rfl⟩ | hroot | hroot
  · obtain ⟨r', rfl, hle⟩ := exists_vector_of_shrinks h
    rw [rootSumSquares_vector, real_div _ hq.ne', one_eq, lt_real, decide_eq_true_eq] at hlt ⊢
    exact (div_le_div_of_nonneg_right (sqrt_dotProduct_le hle) hq.le).trans_lt hlt
  · have hdiv : posInf / real q = posInf := if_neg (not_lt.mpr hq.le)
    rw [hroot, hdiv, posInf_lt] at hlt
    cases hlt
  · have hdiv : nan / real q = nan := rfl
    rw [hroot, hdiv, nan_lt] at hlt
    cases hlt

theorem rootMeanSquare_lt_one (h : List.Forall₂ Shrinks xs xs')
    (hlt : Scalar.lt (rootMeanSquare xs) 1 = true) :
    Scalar.lt (rootMeanSquare xs') 1 = true := by
  cases h with
  | nil => exact hlt
  | @cons x x' rest rest' hx hrest =>
      have hcount : 0 < Real.sqrt ((rest.length + 1 : Nat) : ℝ) :=
        Real.sqrt_pos.mpr (Nat.cast_pos.mpr (Nat.succ_pos _))
      have hmean (z : Exact) (zs : List Exact) (hlength : zs.length = rest.length) :
          rootMeanSquare (z :: zs) =
            rootSumSquares (z :: zs) / real (Real.sqrt ((rest.length + 1 : Nat) : ℝ)) := by
        rw [rootMeanSquare_of_ne_nil (List.cons_ne_nil z zs), List.length_cons, hlength, ofNat_eq,
          sqrt_real (Nat.cast_nonneg _)]
      rw [hmean x rest rfl] at hlt
      rw [hmean x' rest' hrest.length_eq.symm]
      exact rootSumSquares_div_lt_one hcount (.cons hx hrest) hlt

/-- A norm below one stays below one when the entries shrink. -/
theorem ofLeaves_lt_one_of_shrinks (hnorm : norm.IsBuiltIn) (h : List.Forall₂ Shrinks xs xs')
    (hlt : Scalar.lt (norm.ofLeaves xs) 1 = true) : Scalar.lt (norm.ofLeaves xs') 1 = true := by
  cases norm with
  | max =>
      have hall := (maxMagnitude_lt_one xs).mp hlt
      refine (maxMagnitude_lt_one xs').mpr ?_
      clear hlt
      induction h with
      | nil => exact hall
      | cons hx _ ih =>
          obtain ⟨hfirst, hrest⟩ := List.forall_mem_cons.mp hall
          exact List.forall_mem_cons.mpr ⟨abs_lt_one_of_shrinks hx hfirst, ih hrest⟩
  | rms => exact rootMeanSquare_lt_one h hlt
  | two =>
      have hone (zs : List Exact) : rootSumSquares zs / real 1 = rootSumSquares zs := div_one_eq _
      rw [Norm.ofLeaves, ← hone] at hlt ⊢
      exact rootSumSquares_div_lt_one one_pos h hlt
  | custom measure => exact hnorm.elim

end Norms

/-! ### Looser tests -/

section Tests

variable {κ Aux : Type} {relative relative' absolute absolute' : ℝ}

/-- Next to an infinite value everything finite is allowed, or nothing if only the part that does not
grow counts. -/
theorem bound_of_infinite (hrelative : 0 ≤ relative) (absolute : ℝ) {x : Exact}
    (hx : Scalar.abs x = posInf) :
    Tolerance.bound ⟨real relative, real absolute⟩ x = if 0 < relative then posInf else nan := by
  have hproduct : real relative * posInf = if 0 < relative then posInf else nan := by
    show infinityOf relative = _
    rw [infinityOf, if_neg (not_lt.mpr hrelative)]
  rw [Tolerance.bound, hx, hproduct]
  split <;> rfl

/-- A change that is measured against larger tolerances shrinks. -/
theorem shrinks_div_bound (hrelative : 0 ≤ relative) (hrelative' : relative ≤ relative')
    (habsolute : 0 ≤ absolute) (habsolute' : absolute ≤ absolute') (d x : Exact) :
    Shrinks (d / Tolerance.bound ⟨real relative, real absolute⟩ x)
      (d / Tolerance.bound ⟨real relative', real absolute'⟩ x) := by
  have hinfinite (hx : Scalar.abs x = posInf) :
      Shrinks (d / Tolerance.bound ⟨real relative, real absolute⟩ x)
        (d / Tolerance.bound ⟨real relative', real absolute'⟩ x) := by
    rw [bound_of_infinite hrelative _ hx, bound_of_infinite (hrelative.trans hrelative') _ hx]
    intro r hr
    by_cases hpos : 0 < relative
    · rw [if_pos hpos] at hr
      rw [if_pos (hpos.trans_le hrelative')]
      exact ⟨r, hr, le_rfl⟩
    · rw [if_neg hpos, div_nan] at hr
      cases hr
  cases x with
  | real x =>
      have hbound : 0 ≤ absolute + relative * |x| := by positivity
      have hle : absolute + relative * |x| ≤ absolute' + relative' * |x| := by gcongr
      exact shrinks_div hbound hle d
  | posInf => exact hinfinite rfl
  | negInf => exact hinfinite rfl
  | nan =>
      intro r hr
      have hbound : Tolerance.bound ⟨real relative, real absolute⟩ nan = nan := rfl
      rw [hbound, div_nan] at hr
      cases hr

/-- Changes that are small stay small with larger tolerances. -/
theorem leavesSettled_of_le (hrelative : 0 ≤ relative) (hrelative' : relative ≤ relative')
    (habsolute : 0 ≤ absolute) (habsolute' : absolute ≤ absolute') {norm : Norm Exact}
    (hnorm : norm.IsBuiltIn) {ds xs : List Exact}
    (h : leavesSettled ⟨real relative, real absolute⟩ norm ds xs = true) :
    leavesSettled ⟨real relative', real absolute'⟩ norm ds xs = true := by
  refine ofLeaves_lt_one_of_shrinks hnorm ?_ h
  clear h
  induction ds generalizing xs with
  | nil => exact .nil
  | cons d ds ih =>
      cases xs with
      | nil => exact .nil
      | cons x xs =>
          exact .cons (shrinks_div_bound hrelative hrelative' habsolute habsolute' d x) ih

/-- An objective that is settled stays settled with larger tolerances. -/
theorem objectiveSettled_of_le (hrelative : relative ≤ relative') (habsolute : absolute ≤ absolute')
    {f g : Exact} (h : objectiveSettled ⟨real relative, real absolute⟩ f g = true) :
    objectiveSettled ⟨real relative', real absolute'⟩ f g = true := by
  have hreal (x : ℝ) (hf : f = real x) :
      objectiveSettled ⟨real relative', real absolute'⟩ f g = true := by
    subst hf
    have hle : absolute + relative * |x| ≤ absolute' + relative' * |x| := by gcongr
    exact lt_real_of_le hle h
  have hinfinite (hdiff : Scalar.abs (f - g) = posInf ∨ Scalar.abs (f - g) = nan) :
      objectiveSettled ⟨real relative', real absolute'⟩ f g = true := by
    unfold objectiveSettled at h
    rcases hdiff with hdiff | hdiff
    · rw [hdiff, posInf_lt] at h
      cases h
    · rw [hdiff, nan_lt] at h
      cases h
  cases f with
  | real x => exact hreal x rfl
  | posInf => exact hinfinite (by cases g <;> first | exact .inl rfl | exact .inr rfl)
  | negInf => exact hinfinite (by cases g <;> first | exact .inl rfl | exact .inr rfl)
  | nan => exact hinfinite (.inr rfl)

/-- The test with larger tolerances differs at most by stopping in success. -/
theorem stopping_of_le (hrelative : 0 ≤ relative) (hrelative' : relative ≤ relative')
    (habsolute : 0 ≤ absolute) (habsolute' : absolute ≤ absolute') {norm : Norm Exact}
    (hnorm : norm.IsBuiltIn) (y diff : Tree κ Exact) (f g : Exact) (status : Status) :
    stopping ⟨real relative', real absolute'⟩ norm y diff f g status =
        stopping ⟨real relative, real absolute⟩ norm y diff f g status ∨
      stopping ⟨real relative', real absolute'⟩ norm y diff f g status = .ok (true, .successful) ∧
        stopping ⟨real relative, real absolute⟩ norm y diff f g status =
          .ok (false, .successful) := by
  by_cases hstatus : status = .successful
  · subst hstatus
    by_cases hsize : diff.size = y.size
    · rw [stopping_of_size_eq hsize, stopping_of_size_eq hsize]
      by_cases htight : leavesSettled ⟨real relative, real absolute⟩ norm diff.leaves y.leaves = true ∧
          objectiveSettled ⟨real relative, real absolute⟩ f g = true
      · have hpoint := leavesSettled_of_le hrelative hrelative' habsolute habsolute' hnorm htight.1
        have hobjective := objectiveSettled_of_le hrelative' habsolute' htight.2
        exact .inl (by rw [htight.1, htight.2, hpoint, hobjective])
      · rw [← Bool.and_eq_true, Bool.not_eq_true] at htight
        rw [htight]
        cases leavesSettled ⟨real relative', real absolute'⟩ norm diff.leaves y.leaves &&
            objectiveSettled ⟨real relative', real absolute'⟩ f g with
        | false => exact .inl rfl
        | true => exact .inr ⟨rfl, rfl⟩
    · exact .inl (by rw [stopping_of_size_ne hsize, stopping_of_size_ne hsize])
  · exact .inl (by rw [stopping_of_failed hstatus, stopping_of_failed hstatus])

end Tests

/-! ### Runs under a looser test -/

section Runs

variable {κ Aux : Type} {relative relative' absolute absolute' : ℝ}

/-- A method with other tolerances. -/
def GaussNewton.withTolerance {α : Type} [Scalar α] (method : GaussNewton κ α Aux)
    (tolerance : Tolerance α) : GaussNewton κ α Aux := { method with tolerance := tolerance }

theorem withTolerance_isLooser (hrelative : 0 ≤ relative) (hrelative' : relative ≤ relative')
    (habsolute : 0 ≤ absolute) (habsolute' : absolute ≤ absolute')
    {method : GaussNewton κ Exact Aux} (hnorm : method.norm.IsBuiltIn) :
    IterativeSolver.IsLooser (method.withTolerance ⟨real relative', real absolute'⟩).toSolver
      (method.withTolerance ⟨real relative, real absolute⟩).toSolver where
  start := rfl
  step := rfl
  stop _ _ y state := stopping_of_le hrelative hrelative' habsolute habsolute' hnorm y state.diff
    state.objective state.previous state.status
  stop_start residual tags y state hstart := by
    obtain rfl := Except.ok.inj hstart
    exact (GaussNewton.stop_start _ y).trans (GaussNewton.stop_start _ y).symm

/-- **Looser tolerances end a run sooner.** Two runs from one point, under one of the norms of this
library and with whatever descent and search, differ in their tolerances alone. Then they follow the
same iterates, and the test of the tighter run says to go on wherever that of the looser run does. If
the tighter run ends with an answer or a failure, the looser one does so with no more steps; if the
tighter run converges, so does the looser one; and if the looser run does not converge, the two runs
are the same run. -/
theorem solve_looser (method : GaussNewton κ Exact Aux) (hnorm : method.norm.IsBuiltIn)
    (hrelative : 0 ≤ relative) (hrelative' : relative ≤ relative') (habsolute : 0 ≤ absolute)
    (habsolute' : absolute ≤ absolute') (residual : Residual κ Exact Aux) (y : Tree κ Exact)
    (config : Config) :
    let tight := (method.withTolerance ⟨real relative, real absolute⟩).toSolver
    let loose := (method.withTolerance ⟨real relative', real absolute'⟩).toSolver
    (∀ k, loose.iterateAt residual config.tags y k = tight.iterateAt residual config.tags y k) ∧
      (∀ k, loose.GoesOnAt residual config.tags y k → tight.GoesOnAt residual config.tags y k) ∧
      (∀ n' ∈ stepsTaken? Solution.numSteps (tight.solve residual y config),
        ∃ n ∈ stepsTaken? Solution.numSteps (loose.solve residual y config), n ≤ n') ∧
      (EndsSuccessfully (tight.solve residual y config) →
        EndsSuccessfully (loose.solve residual y config)) ∧
      (¬EndsSuccessfully (loose.solve residual y config) →
        loose.solve residual y config = tight.solve residual y config) := by
  intro tight loose
  have hlooser : IterativeSolver.IsLooser loose tight :=
    withTolerance_isLooser hrelative hrelative' habsolute habsolute' hnorm
  exact ⟨fun k => hlooser.iterateAt k, fun k => hlooser.goesOnAt,
    hlooser.compare residual y config⟩

/-- From zero, full steps on twice the point less six come to the root at once, and the test sees it
after three steps: the second has only put the objective of the starting point behind it. -/
theorem solve_doubledLessSix :
    ∃ state, (newton ⟨real 0, real 1⟩ .max {} (.fixed .full)).toSolver.solve doubledLessSix
        (.scalar (real 0)) {} = .ok ⟨.scalar (real 3), .successful, (), 3, state⟩ := by
  have hleaves : (Tree.scalar (real 0) : Tree Unit Exact).withReals ![0] = .scalar (real 0) :=
    withReals_of_leaves (vector_one ![0]).symm
  have hroot : squaresAt !![2] ![6] (![3] : Fin 1 → ℝ) = 0 := by
    rw [squaresAt_one]
    norm_num
  have hstart : squaresAt !![2] ![6] (![0] : Fin 1 → ℝ) = 36 := by
    rw [squaresAt_one]
    norm_num
  have hbest : IsLeastSquares !![2] ![6] (![3] : Fin 1 → ℝ) := by
    intro z
    rw [hroot]
    exact squaresAt_nonneg _ _ z
  obtain ⟨t, aux, hvalue, -⟩ := (doubledLessSix_isAffine.linearizesAt ![3]).value
  have hsolver : SolvesLeastSquares .standard {} (!![2] : Matrix (Fin 1) (Fin 1) ℝ) :=
    solvesLeastSquares_single (by simp)
  have hit := iterateAt_affine ⟨real 0, real 1⟩ .max doubledLessSix_isAffine hsolver hbest hvalue
    ![0]
  have hgoes (j : Nat) (hj : j < 2) := goesOn_affine ⟨real 0, real 1⟩ .max doubledLessSix_isAffine
    hsolver hbest hvalue ![0] hj
  have hstop (k : Nat) (f : ℝ) := @stop_landed Unit Unit _ (.scalar (real 0)) ![3] .standard 0 1
    .max le_rfl one_pos trivial (squaresAt !![2] ![6]) ![0] k f
  rw [hleaves] at hit hgoes
  have hclose : |squaresAt !![2] ![6] (![3] : Fin 1 → ℝ) - 0| <
      1 + 0 * |squaresAt !![2] ![6] (![3] : Fin 1 → ℝ)| := by
    rw [hroot]
    norm_num
  have hfar : ¬|squaresAt !![2] ![6] (![3] : Fin 1 → ℝ) - 36| <
      1 + 0 * |squaresAt !![2] ![6] (![3] : Fin 1 → ℝ)| := by
    rw [hroot]
    norm_num
  have hstops := (hstop 1 0 (congrArg real hroot)).trans (congrArg
    (fun settled => Except.ok (settled, Status.successful)) (decide_eq_true hclose))
  have hgoesOn := (hstop 0 36 (congrArg real hstart)).trans (congrArg
    (fun settled => Except.ok (settled, Status.successful)) (decide_eq_false hfar))
  refine ⟨_, IterativeSolver.StopsFirstAt.solve_successful ⟨hit 2, hstops, fun j hj => ?_⟩
    (by decide) rfl⟩
  rcases Nat.lt_or_eq_of_le (Nat.le_of_lt_succ hj) with hlt | rfl
  · exact hgoes j hlt
  · exact ⟨_, .successful, hit 1, hgoesOn⟩

/-- With a hundred times the tolerance the run from zero takes no more steps. -/
theorem solve_looser_line :
    ∃ solution, ((newton ⟨real 0, real 1⟩ .max {} (.fixed .full)).withTolerance
        ⟨real 0, real 100⟩).toSolver.solve doubledLessSix (.scalar (real 0)) {} = .ok solution ∧
      solution.status = .successful ∧ solution.numSteps ≤ 3 := by
  obtain ⟨state, htight⟩ := solve_doubledLessSix
  obtain ⟨-, -, hsteps, hends, -⟩ := solve_looser (newton ⟨real 0, real 1⟩ .max {} (.fixed .full))
    trivial le_rfl le_rfl zero_le_one (by norm_num : (1 : ℝ) ≤ 100) doubledLessSix
    (.scalar (real 0)) {}
  obtain ⟨solution, hsolution, hstatus⟩ := hends ⟨_, htight, rfl⟩
  obtain ⟨n, hn, hle⟩ := hsteps 3 (congrArg (stepsTaken? Solution.numSteps) htight)
  rw [hsolution] at hn
  obtain rfl := Option.some.inj hn
  exact ⟨solution, hsolution, hstatus, hle⟩

end Runs

end LeastSquares
