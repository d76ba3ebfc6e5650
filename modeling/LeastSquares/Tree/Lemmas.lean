import LeastSquares.Tree.Arithmetic

/-!
# The two views of a tree

What reading the leaves of a tree and refilling its skeleton say about each other. The leaves of a
refilled tree are the list it was filled with, cut or padded to the size of the tree; the list that
is left over has lost as many entries; and a second refill sees nothing of the first. A tree that is
refilled with its own leaves is the same tree.

The operations of leafwise arithmetic are then described by their leaves alone.
-/

namespace LeastSquares

namespace Tree

variable {κ α β γ : Type}

section TakePadded

@[simp] theorem takePadded_fst_length (pad : β) (n : Nat) (xs : List β) :
    (takePadded pad n xs).1.length = n := by
  induction n generalizing xs with
  | zero => rfl
  | succ n ih => simp [takePadded, ih]

@[simp] theorem takePadded_snd (pad : β) (n : Nat) (xs : List β) :
    (takePadded pad n xs).2 = xs.drop n := by
  induction n generalizing xs with
  | zero => rfl
  | succ n ih => simp [takePadded, ih]

theorem takePadded_fst (pad : β) (n : Nat) (xs : List β) :
    (takePadded pad n xs).1 = xs.take n ++ List.replicate (n - xs.length) pad := by
  induction n generalizing xs with
  | zero => simp [takePadded]
  | succ n ih => cases xs <;> simp [takePadded, ih, List.replicate_succ]

/-- A list that is long enough is split in front of the entries that are not needed. -/
theorem takePadded_append (pad : β) (xs ys : List β) :
    takePadded pad xs.length (xs ++ ys) = (xs, ys) := by
  induction xs with
  | nil => rfl
  | cons x xs ih => simp [takePadded, ih]

/-- Taking in two portions. -/
theorem takePadded_add (pad : β) (m n : Nat) (xs : List β) :
    (takePadded pad (m + n) xs).1 =
      (takePadded pad m xs).1 ++ (takePadded pad n (xs.drop m)).1 := by
  induction m generalizing xs with
  | zero => simp [takePadded]
  | succ m ih => simp [takePadded, Nat.succ_add, ih]

end TakePadded

mutual

/-- The size of a tree counts its leaves. -/
theorem leaves_length : ∀ t : Tree κ α, t.leaves.length = t.size
  | .scalar _ => rfl
  | .array _ _ => rfl
  | .keyed _ parts => leavesOfParts_length parts
  | .tuple parts => leavesOfParts_length parts

/-- The size of several trees counts their leaves. -/
theorem leavesOfParts_length :
    ∀ parts : List (Tree κ α), (leavesOfParts parts).length = sizeOfParts parts
  | [] => rfl
  | t :: rest => by
      simp [leavesOfParts, sizeOfParts, leaves_length t, leavesOfParts_length rest]

end

mutual

/-- A refill uses up as many entries as the tree has leaves. -/
theorem refill_snd (pad : β) : ∀ (t : Tree κ α) (xs : List β),
    (refill pad t xs).2 = xs.drop t.size
  | .scalar _, xs => by simp [refill, size]
  | .array _ ys, xs => by simp [refill, size]
  | .keyed _ parts, xs => by simp [refill, size, refillParts_snd pad parts xs]
  | .tuple parts, xs => by simp [refill, size, refillParts_snd pad parts xs]

/-- A refill of several trees uses up as many entries as they have leaves. -/
theorem refillParts_snd (pad : β) : ∀ (parts : List (Tree κ α)) (xs : List β),
    (refillParts pad parts xs).2 = xs.drop (sizeOfParts parts)
  | [], _ => rfl
  | t :: rest, xs => by
      simp [refillParts, sizeOfParts, refill_snd pad t xs, refillParts_snd pad rest]

end

mutual

/-- The leaves of a refilled tree are the list it was filled with, cut or padded. -/
theorem leaves_refill (pad : β) : ∀ (t : Tree κ α) (xs : List β),
    (refill pad t xs).1.leaves = (takePadded pad t.size xs).1
  | .scalar _, _ => rfl
  | .array _ _, _ => rfl
  | .keyed _ parts, xs => leavesOfParts_refill pad parts xs
  | .tuple parts, xs => leavesOfParts_refill pad parts xs

/-- The leaves of several refilled trees. -/
theorem leavesOfParts_refill (pad : β) : ∀ (parts : List (Tree κ α)) (xs : List β),
    leavesOfParts (refillParts pad parts xs).1 = (takePadded pad (sizeOfParts parts) xs).1
  | [], _ => rfl
  | t :: rest, xs => by
      simp [refillParts, leavesOfParts, sizeOfParts, takePadded_add, leaves_refill pad t xs,
        leavesOfParts_refill pad rest, refill_snd]

end

mutual

/-- A second refill sees nothing of the first. -/
theorem refill_refill (pad : β) (pad' : γ) : ∀ (t : Tree κ α) (xs : List β) (ys : List γ),
    refill pad' (refill pad t xs).1 ys = refill pad' t ys
  | .scalar _, _, _ => rfl
  | .array _ _, _, _ => by simp [refill]
  | .keyed _ parts, xs, ys => by simp [refill, refillParts_refill pad pad' parts xs ys]
  | .tuple parts, xs, ys => by simp [refill, refillParts_refill pad pad' parts xs ys]

/-- A second refill of several trees sees nothing of the first. -/
theorem refillParts_refill (pad : β) (pad' : γ) :
    ∀ (parts : List (Tree κ α)) (xs : List β) (ys : List γ),
      refillParts pad' (refillParts pad parts xs).1 ys = refillParts pad' parts ys
  | [], _, _ => rfl
  | t :: rest, xs, ys => by
      simp [refillParts, refill_refill pad pad' t xs, refillParts_refill pad pad' rest]

end

mutual

/-- A refill with the leaves of the tree itself gives the tree back, and leaves the rest. -/
theorem refill_leaves_append (pad : α) : ∀ (t : Tree κ α) (xs : List α),
    refill pad t (t.leaves ++ xs) = (t, xs)
  | .scalar _, _ => rfl
  | .array _ ys, xs => by simp [refill, leaves, takePadded_append]
  | .keyed _ parts, xs => by simp [refill, leaves, refillParts_leaves_append pad parts xs]
  | .tuple parts, xs => by simp [refill, leaves, refillParts_leaves_append pad parts xs]

/-- A refill of several trees with their own leaves gives them back. -/
theorem refillParts_leaves_append (pad : α) : ∀ (parts : List (Tree κ α)) (xs : List α),
    refillParts pad parts (leavesOfParts parts ++ xs) = (parts, xs)
  | [], _ => rfl
  | t :: rest, xs => by
      simp [refillParts, leavesOfParts, List.append_assoc, refill_leaves_append pad t,
        refillParts_leaves_append pad rest]

end

mutual

/-- Trees of one skeleton have one size. -/
theorem size_refill (pad : β) : ∀ (t : Tree κ α) (xs : List β), (refill pad t xs).1.size = t.size
  | .scalar _, _ => rfl
  | .array _ _, _ => by simp [refill, size]
  | .keyed _ parts, xs => by simp [refill, size, sizeOfParts_refill pad parts xs]
  | .tuple parts, xs => by simp [refill, size, sizeOfParts_refill pad parts xs]

/-- Several trees of one skeleton have one size. -/
theorem sizeOfParts_refill (pad : β) : ∀ (parts : List (Tree κ α)) (xs : List β),
    sizeOfParts (refillParts pad parts xs).1 = sizeOfParts parts
  | [], _ => rfl
  | t :: rest, xs => by
      simp [refillParts, sizeOfParts, size_refill pad t xs, sizeOfParts_refill pad rest]

end

mutual

/-- Trees of one skeleton have the same arrays. -/
theorem shapes_refill (pad : β) : ∀ (t : Tree κ α) (xs : List β),
    (refill pad t xs).1.shapes = t.shapes
  | .scalar _, _ => rfl
  | .array _ _, _ => by simp [refill, shapes]
  | .keyed _ parts, xs => by simp [refill, shapes, shapesOfParts_refill pad parts xs]
  | .tuple parts, xs => by simp [refill, shapes, shapesOfParts_refill pad parts xs]

/-- Several trees of one skeleton have the same arrays. -/
theorem shapesOfParts_refill (pad : β) : ∀ (parts : List (Tree κ α)) (xs : List β),
    shapesOfParts (refillParts pad parts xs).1 = shapesOfParts parts
  | [], _ => rfl
  | t :: rest, xs => by
      simp [refillParts, shapesOfParts, shapes_refill pad t xs, shapesOfParts_refill pad rest]

end

/-- A refill keeps the skeleton. -/
theorem skeleton_refill (pad : β) (t : Tree κ α) (xs : List β) :
    (refill pad t xs).1.skeleton = t.skeleton := by
  simp [skeleton, refill_refill]

@[simp] theorem size_skeleton (t : Tree κ α) : t.skeleton.size = t.size := size_refill _ t _

theorem size_eq_of_skeleton {t u : Tree κ α} (h : t.skeleton = u.skeleton) : t.size = u.size := by
  rw [← size_skeleton t, h, size_skeleton]

section Arithmetic

variable [Scalar α]

/-- A tree is told by its skeleton and its leaves. -/
theorem eq_of_skeleton_of_leaves {t u : Tree κ α} (hs : t.skeleton = u.skeleton)
    (hl : t.leaves = u.leaves) : t = u := by
  have filled (v : Tree κ α) : (refill Scalar.nan v.skeleton v.leaves).1 = v := by
    have hv := refill_leaves_append (Scalar.nan : α) v []
    rw [List.append_nil] at hv
    simp [skeleton, refill_refill, hv]
  rw [← filled t, ← filled u, hs, hl]

/-- The right number of leaves comes back as it was given. -/
theorem leaves_withLeaves (t : Tree κ α) {xs : List α} (h : xs.length = t.size) :
    (t.withLeaves xs).leaves = xs := by
  have hx := takePadded_append (Scalar.nan : α) xs []
  rw [List.append_nil] at hx
  simp [withLeaves, unflatten, leaves_refill, ← h, hx]

@[simp] theorem size_withLeaves (t : Tree κ α) (xs : List α) :
    (t.withLeaves xs).size = t.size := size_refill _ t xs

@[simp] theorem skeleton_withLeaves (t : Tree κ α) (xs : List α) :
    (t.withLeaves xs).skeleton = t.skeleton := skeleton_refill _ t xs

@[simp] theorem layout_withLeaves (t : Tree κ α) (xs : List α) :
    (t.withLeaves xs).layout = t.layout := by
  simp [layout, withLeaves, unflatten, shapes_refill]

/-- The right number of leaves is always accepted. -/
theorem rebuild_eq_ok (t : Tree κ α) {xs : List α} (h : xs.length = t.size) :
    t.rebuild xs = .ok (t.withLeaves xs) := by
  simp [rebuild, withLeaves, h]

@[simp] theorem leaves_map (f : α → α) (t : Tree κ α) : (t.map f).leaves = t.leaves.map f :=
  leaves_withLeaves t (by simp [leaves_length])

@[simp] theorem leaves_fill (t : Tree κ α) (x : α) :
    (t.fill x).leaves = List.replicate t.size x := by
  simp [fill, List.map_const', leaves_length]

/-- The leaves of a unit tree: one at the position, and zero at the others. -/
theorem leaves_unit (t : Tree κ α) (j : Nat) :
    (t.unit j).leaves = (List.range t.size).map fun i => if i = j then 1 else 0 := by
  unfold unit
  rw [leaves_withLeaves t (by simp [leaves_length]), leaves_length]

@[simp] theorem leaves_scale (t : Tree κ α) (factor : α) :
    (t.scale factor).leaves = t.leaves.map (factor * ·) := by
  simp [scale]

/-- Trees with as many leaves are combined leaf by leaf in the skeleton of the first. -/
theorem zipWith_eq_ok (f : α → α → α) {t u : Tree κ α} (h : t.size = u.size) :
    t.zipWith f u = .ok (t.withLeaves (List.zipWith f t.leaves u.leaves)) := by
  simp [zipWith, leaves_length, h, rebuild, withLeaves]

/-- Trees are combined only if they have as many leaves, and then leaf by leaf. -/
theorem zipWith_eq_ok_iff {f : α → α → α} {t u v : Tree κ α} :
    t.zipWith f u = .ok v ↔
      t.size = u.size ∧ t.withLeaves (List.zipWith f t.leaves u.leaves) = v := by
  by_cases h : t.size = u.size
  · simp [zipWith_eq_ok f h, h]
  · simp [zipWith, leaves_length, h]

/-- A combination has the skeleton of the first tree. -/
theorem skeleton_of_zipWith {f : α → α → α} {t u v : Tree κ α} (h : t.zipWith f u = .ok v) :
    v.skeleton = t.skeleton := by
  obtain ⟨-, rfl⟩ := zipWith_eq_ok_iff.mp h
  exact skeleton_withLeaves t _

/-- The leaves of a combination. -/
theorem leaves_of_zipWith {f : α → α → α} {t u v : Tree κ α} (h : t.zipWith f u = .ok v) :
    v.leaves = List.zipWith f t.leaves u.leaves := by
  obtain ⟨hsize, rfl⟩ := zipWith_eq_ok_iff.mp h
  exact leaves_withLeaves t (by simp [leaves_length, hsize])

end Arithmetic

end Tree

end LeastSquares
