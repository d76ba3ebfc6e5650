import LeastSquares.Operator
import LeastSquares.Proofs.Outcome
import LeastSquares.Tree.Lemmas

/-!
# Trees and the arrays of their leaves

Every tree has a flat form, the plain array of its leaves. What leafwise arithmetic does to a tree it
does to the flat form as well, and it keeps the skeleton of the tree on the way. So a computation on
trees of one skeleton and the same computation on plain arrays run side by side: `FlatOver` is the
relation between the two that every operation preserves.
-/

namespace LeastSquares

namespace Tree

variable {κ α : Type}

/-- The plain array of the leaves of a tree. -/
def flat (t : Tree κ α) : Tree κ α := .array .growable t.leaves

@[simp] theorem leaves_flat (t : Tree κ α) : t.flat.leaves = t.leaves := rfl

@[simp] theorem size_flat (t : Tree κ α) : t.flat.size = t.size := leaves_length t

/-- A tree of a given skeleton beside its flat form. -/
structure FlatOver (skeleton : Tree κ Unit) (t t' : Tree κ α) : Prop where
  skeleton_eq : t.skeleton = skeleton
  eq_flat : t' = t.flat

theorem FlatOver.leaves_eq {skeleton : Tree κ Unit} {t t' : Tree κ α} (h : FlatOver skeleton t t') :
    t'.leaves = t.leaves := by
  rw [h.eq_flat, leaves_flat]

section Arithmetic

variable [Scalar α]

theorem flat_withLeaves (t : Tree κ α) (xs : List α) :
    (t.withLeaves xs).flat = t.flat.withLeaves xs := by
  simp [flat, withLeaves, unflatten, refill, leaves_refill, leaves_length]

theorem flatOver_withLeaves (t : Tree κ α) (xs : List α) :
    FlatOver t.skeleton (t.withLeaves xs) (t.flat.withLeaves xs) :=
  ⟨skeleton_withLeaves t xs, (flat_withLeaves t xs).symm⟩

theorem flat_map (f : α → α) (t : Tree κ α) : (t.map f).flat = t.flat.map f :=
  flat_withLeaves t _

theorem flat_fill (t : Tree κ α) (x : α) : (t.fill x).flat = t.flat.fill x := flat_map _ t

theorem flat_scale (t : Tree κ α) (factor : α) : (t.scale factor).flat = t.flat.scale factor :=
  flat_map _ t

theorem flat_unit (t : Tree κ α) (j : Nat) : (t.unit j).flat = t.flat.unit j :=
  flat_withLeaves t _

@[simp] theorem skeleton_fill (t : Tree κ α) (x : α) : (t.fill x).skeleton = t.skeleton :=
  skeleton_withLeaves t _

@[simp] theorem skeleton_scale (t : Tree κ α) (factor : α) :
    (t.scale factor).skeleton = t.skeleton := skeleton_withLeaves t _

@[simp] theorem skeleton_unit (t : Tree κ α) (j : Nat) : (t.unit j).skeleton = t.skeleton :=
  skeleton_withLeaves t _

/-- Leaves are refused by a tree and by its flat form alike. -/
theorem rebuild_flat (t : Tree κ α) (xs : List α) :
    Outcome.Related Eq (FlatOver t.skeleton) (t.rebuild xs) (t.flat.rebuild xs) := by
  unfold rebuild
  rw [size_flat]
  split
  · exact .ok (flatOver_withLeaves t xs)
  · exact .error rfl

/-- Of the second tree only the leaves count. -/
theorem zipWith_flat (f : α → α → α) (t : Tree κ α) {u u' : Tree κ α}
    (h : u'.leaves = u.leaves) :
    Outcome.Related Eq (FlatOver t.skeleton) (t.zipWith f u) (t.flat.zipWith f u') := by
  unfold zipWith
  rw [leaves_flat, h]
  split
  · exact rebuild_flat t _
  · exact .error rfl

theorem dot_congr {t t' u u' : Tree κ α} (ht : t'.leaves = t.leaves) (hu : u'.leaves = u.leaves) :
    t'.dot u' = t.dot u := by
  simp [dot, ht, hu]

end Arithmetic

end Tree

end LeastSquares
