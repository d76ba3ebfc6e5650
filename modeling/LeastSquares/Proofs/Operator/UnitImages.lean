import Mathlib.Tactic.IntervalCases
import LeastSquares.Proofs.Exact.Number
import LeastSquares.Proofs.Representation.Flat

/-!
# The images of the unit trees

The columns of the matrix of a function are the images of the unit trees of its domain, whatever the
function is: it need not be linear, and its images may have any size. An image with fewer leaves than
the codomain leaves zeros below it. An image with more leaves does not fit, and then there is no matrix
at all; nor is there one if the function faults at a unit tree (`matrix_ofFunction`).
-/

namespace LeastSquares

open LeastSquares.Tree Outcome

variable {κ α : Type} [Scalar α]

section Columns

variable {apply : Tree κ α → Checked (Tree κ α)} {domain codomain : Tree κ α} {nrows j : Nat}

/-- A column is the image of a unit tree that is not longer than a column. -/
theorem columnOf_eq_ok_iff {column : List α} :
    columnOf apply domain nrows j = .ok column ↔
      ∃ image, apply (domain.unit j) = .ok image ∧ image.size ≤ nrows ∧ image.leaves = column := by
  unfold columnOf
  rw [bind_eq_ok]
  refine exists_congr fun image => and_congr_right fun _ => ?_
  rw [leaves_length]
  by_cases hfits : image.size ≤ nrows
  · simp [hfits]
  · simp [hfits]

/-- There is no column where the map faults, or where its image is longer than a column. -/
theorem columnOf_fails_iff :
    (∃ fault, columnOf apply domain nrows j = .error fault) ↔
      (∃ fault, apply (domain.unit j) = .error fault) ∨
        ∃ image, apply (domain.unit j) = .ok image ∧ nrows < image.size := by
  unfold columnOf
  cases apply (domain.unit j) with
  | error fault => simp
  | ok image =>
      rw [ok_bind, leaves_length]
      by_cases hfits : image.size ≤ nrows
      · simp [hfits]
      · simp [hfits, not_le.mp hfits]

/-- The matrix of a map has a row for each leaf of the codomain and a column for each leaf of the
domain. -/
theorem dims_of_materialize {a : DenseMatrix α} (h : materialize apply domain codomain = .ok a) :
    a.nrows = codomain.size ∧ a.ncols = domain.size := by
  obtain ⟨columns, -, heq⟩ := bind_eq_ok.mp h
  cases heq
  exact ⟨rfl, rfl⟩

/-- There is no matrix where one of its columns is missing. -/
theorem materialize_fails_iff :
    (∃ fault, materialize apply domain codomain = .error fault) ↔
      ∃ j < domain.size, ∃ fault, columnOf apply domain codomain.size j = .error fault := by
  have hcolumns : (∃ fault, materialize apply domain codomain = .error fault) ↔
      ∃ fault, (List.range domain.size).mapM (columnOf apply domain codomain.size) = .error fault := by
    simp [materialize, bind_eq_error]
  rw [hcolumns, mapM_fails_iff]
  simp only [List.mem_range]

/-- There is a matrix where no image of a unit tree is longer than a column. -/
theorem exists_materialize (h : ∀ j < domain.size, ∃ image, apply (domain.unit j) = .ok image ∧
    image.size ≤ codomain.size) :
    ∃ a, materialize apply domain codomain = .ok a := by
  cases hmatrix : materialize apply domain codomain with
  | ok a => exact ⟨a, rfl⟩
  | error fault =>
      obtain ⟨j, hj, fault', hfails⟩ := materialize_fails_iff.mp ⟨fault, hmatrix⟩
      obtain ⟨image, happly, hfits⟩ := h j hj
      have hcolumn := columnOf_eq_ok_iff.mpr ⟨image, happly, hfits, rfl⟩
      cases hcolumn.symm.trans hfails

/-- An entry of the matrix is one of its column, or zero below the end of the column. -/
theorem entry_of_materialize {a : DenseMatrix α} (h : materialize apply domain codomain = .ok a)
    (hj : j < domain.size) :
    ∃ column, columnOf apply domain codomain.size j = .ok column ∧
      ∀ i < codomain.size, a.entry i j = column.getD i 0 := by
  obtain ⟨columns, hcolumns, heq⟩ := bind_eq_ok.mp h
  cases heq
  rw [mapM_eq_ok_iff] at hcolumns
  have hlength : columns.length = domain.size := by
    simpa using (congrArg List.length hcolumns).symm
  have hcolumn := congrArg (·[j]?) hcolumns
  simp only [List.getElem?_map, List.getElem?_range hj, Option.map_some,
    List.getElem?_eq_getElem (hlength ▸ hj)] at hcolumn
  refine ⟨columns[j], Option.some.inj hcolumn, fun i hi => ?_⟩
  rw [DenseMatrix.entry_ofColumns columns hi hj]
  simp [hlength, hj]

end Columns

/-- **The matrix of any function.** The unit trees have the skeleton of the domain, and hold a one at
their position and zeros at the others. There is no matrix exactly if the function faults at one of them,
or has an image there with more leaves than the codomain. The matrix has a row for each leaf of the
codomain and a column for each leaf of the domain; a column holds the leaves of the image of its unit
tree from the top, and zeros where the image has ended. -/
theorem matrix_ofFunction (apply : Tree κ α → Checked (Tree κ α)) (domain codomain : Tree κ α)
    (tags : Tags) :
    (∀ j, (domain.unit j).skeleton = domain.skeleton ∧
      (domain.unit j).leaves = (List.range domain.size).map fun i => if i = j then 1 else 0) ∧
    ((∃ fault, (LinearOperator.ofFunction apply domain codomain tags).matrix = .error fault) ↔
      ∃ j < domain.size, (∃ fault, apply (domain.unit j) = .error fault) ∨
        ∃ image, apply (domain.unit j) = .ok image ∧ codomain.size < image.size) ∧
    ∀ a, (LinearOperator.ofFunction apply domain codomain tags).matrix = .ok a →
      a.nrows = codomain.size ∧ a.ncols = domain.size ∧
        ∀ j < domain.size, ∃ image, apply (domain.unit j) = .ok image ∧
          ∀ i < codomain.size, a.entry i j = image.leaves.getD i 0 := by
  refine ⟨fun j => ⟨skeleton_unit domain j, leaves_unit domain j⟩, ?_, fun a ha => ?_⟩
  · refine materialize_fails_iff.trans (exists_congr fun j => and_congr_right fun _ => ?_)
    exact columnOf_fails_iff
  · obtain ⟨hrows, hcols⟩ := dims_of_materialize ha
    refine ⟨hrows, hcols, fun j hj => ?_⟩
    obtain ⟨column, hcolumn, hentry⟩ := entry_of_materialize ha hj
    obtain ⟨image, happly, -, rfl⟩ := columnOf_eq_ok_iff.mp hcolumn
    exact ⟨image, happly, hentry⟩

section AfterZeros

open Exact

/-- The leaves from the first one above zero on, each of them raised by two. -/
noncomputable def afterZeros (t : Tree Unit Exact) : Checked (Tree Unit Exact) :=
  .ok (.array .growable ((t.leaves.dropWhile fun x => Scalar.le x 0).map (Scalar.ofNat 2 + ·)))

/-- A number beside an array of two numbers. -/
noncomputable def beside : Tree Unit Exact := .tuple [.scalar 0, .array .growable [0, 0]]

theorem afterZeros_unit :
    afterZeros (beside.unit 0) = .ok (.array .growable [real 3, real 2, real 2]) ∧
      afterZeros (beside.unit 1) = .ok (.array .growable [real 3, real 2]) ∧
      afterZeros (beside.unit 2) = .ok (.array .growable [real 3]) := by
  have hsize : beside.size = 3 := rfl
  have hthree : (2 : ℝ) + 1 = 3 := by norm_num
  refine ⟨?_, ?_, ?_⟩
  all_goals simp [afterZeros, leaves_unit, hsize, List.range_succ, hthree]

/-- The leaves after the zeros of the three unit trees are three, two and one. In columns of three they
are filled up with zeros; in columns of two the first of them does not fit. -/
theorem matrix_ofFunction_afterZeros :
    (∃ a, (LinearOperator.ofFunction afterZeros beside (.array .growable [0, 0, 0]) {}).matrix = .ok a ∧
      a.nrows = 3 ∧ a.ncols = 3 ∧
      a.entry 0 1 = real 3 ∧ a.entry 1 1 = real 2 ∧ a.entry 2 1 = real 0) ∧
    ∃ fault,
      (LinearOperator.ofFunction afterZeros beside (.array .growable [0, 0]) {}).matrix =
        .error fault := by
  obtain ⟨hfirst, hsecond, hthird⟩ := afterZeros_unit
  constructor
  · obtain ⟨-, hfails, hcolumns⟩ :=
      matrix_ofFunction afterZeros beside (.array .growable [0, 0, 0]) {}
    generalize hmatrix :
      (LinearOperator.ofFunction afterZeros beside (.array .growable [0, 0, 0]) {}).matrix = matrix
    cases matrix with
    | error fault =>
        obtain ⟨j, hj, hmisfit⟩ := hfails.mp ⟨fault, hmatrix⟩
        have hj : j < 3 := hj
        interval_cases j
        · simp [hfirst, size] at hmisfit
        · simp [hsecond, size] at hmisfit
        · simp [hthird, size] at hmisfit
    | ok a =>
        obtain ⟨hrows, hcols, hentries⟩ := hcolumns a hmatrix
        obtain ⟨image, himage, hentry⟩ := hentries 1 (by decide)
        cases hsecond.symm.trans himage
        exact ⟨a, rfl, hrows, hcols, hentry 0 (by decide), hentry 1 (by decide), hentry 2 (by decide)⟩
  · obtain ⟨-, hfails, -⟩ := matrix_ofFunction afterZeros beside (.array .growable [0, 0]) {}
    exact hfails.mpr ⟨0, by decide, .inr ⟨_, hfirst, by decide⟩⟩

end AfterZeros

end LeastSquares
