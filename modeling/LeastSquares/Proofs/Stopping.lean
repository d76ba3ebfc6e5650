import LeastSquares.Stopping
import LeastSquares.Tree.Lemmas
import LeastSquares.Proofs.Outcome

/-!
# What the stopping test reads

The stopping test has three cases. After a failure it says to stop; a change that does not fit the point
is a fault; and otherwise it reads the leaves of the two trees in pairs, and the two objectives. So what
it says is a matter of the leaves alone.
-/

namespace LeastSquares

variable {κ α : Type} [Scalar α]

/-- Whether a norm takes the changes of some leaves to be small. -/
def leavesSettled (tolerance : Tolerance α) (norm : Norm α) (ds xs : List α) : Bool :=
  Scalar.lt (norm.ofLeaves (List.zipWith (fun d x => d / tolerance.bound x) ds xs)) 1

variable {tolerance : Tolerance α} {norm : Norm α} {y diff : Tree κ α} {f g : α}

omit [Scalar α] in
theorem leaves_length_eq_iff : diff.leaves.length = y.leaves.length ↔ diff.size = y.size := by
  rw [Tree.leaves_length, Tree.leaves_length]

/-- Whether a point is settled is told by its leaves and those of its change. -/
theorem pointSettled_eq_leaves (tolerance : Tolerance α) (norm : Norm α) (h : diff.size = y.size) :
    pointSettled tolerance norm y diff =
      .ok (leavesSettled tolerance norm diff.leaves y.leaves) := by
  have hlength : (List.zipWith (fun d x => d / tolerance.bound x) diff.leaves y.leaves).length =
      diff.size := by simp [Tree.leaves_length, h]
  unfold pointSettled
  rw [Tree.zipWith_eq_ok _ h, Outcome.ok_bind, Norm.apply, Tree.leaves_withLeaves diff hlength]
  rfl

theorem stopping_of_failed {status : Status} (h : status ≠ .successful) :
    stopping tolerance norm y diff f g status = .ok (true, status) := by
  rw [stopping, Status.isSuccessful_eq_false h]
  rfl

/-- Trees that do not fit fault with the counts of their leaves. -/
theorem stopping_of_size_ne (h : diff.size ≠ y.size) :
    stopping tolerance norm y diff f g .successful =
      .error (.leafCount diff.leaves.length y.leaves.length) := by
  simp [stopping, pointSettled, Tree.zipWith, Tree.leaves_length, h, Status.isSuccessful]

theorem stopping_of_size_eq (h : diff.size = y.size) :
    stopping tolerance norm y diff f g .successful =
      .ok (leavesSettled tolerance norm diff.leaves y.leaves && objectiveSettled tolerance f g,
        .successful) := by
  rw [stopping, pointSettled_eq_leaves tolerance norm h]
  rfl

/-- The test says to stop after a failure, and after a success when both of its parts say so of trees
that fit. -/
theorem stopping_eq_true_iff {status : Status} :
    stopping tolerance norm y diff f g status = .ok (true, status) ↔
      (status = .successful → diff.size = y.size ∧
        leavesSettled tolerance norm diff.leaves y.leaves = true ∧
        objectiveSettled tolerance f g = true) := by
  by_cases hstatus : status = .successful
  · subst hstatus
    by_cases hsize : diff.size = y.size
    · simp [stopping_of_size_eq hsize, hsize]
    · simp [stopping_of_size_ne hsize, hsize]
  · simp [stopping_of_failed hstatus, hstatus]

section Pairs

variable {β γ : Type} {ds xs : List β}

theorem mem_zipWith_iff {F : β → β → γ} {z : γ} :
    z ∈ List.zipWith F ds xs ↔ ∃ p ∈ ds.zip xs, F p.1 p.2 = z := by
  rw [← List.map_uncurry_zip_eq_zipWith, List.mem_map]
  rfl

/-- Next to every entry of the first list stands one of the second. -/
theorem exists_mem_zip_left {d : β} (hlength : ds.length ≤ xs.length) (hd : d ∈ ds) :
    ∃ x, (d, x) ∈ ds.zip xs := by
  rw [← List.map_fst_zip hlength] at hd
  obtain ⟨⟨_, x⟩, hpair, rfl⟩ := List.mem_map.mp hd
  exact ⟨x, hpair⟩

theorem exists_mem_zip_right {x : β} (hlength : xs.length ≤ ds.length) (hx : x ∈ xs) :
    ∃ d, (d, x) ∈ ds.zip xs := by
  rw [← List.map_snd_zip hlength] at hx
  obtain ⟨⟨d, _⟩, hpair, rfl⟩ := List.mem_map.mp hx
  exact ⟨d, hpair⟩

end Pairs

end LeastSquares
