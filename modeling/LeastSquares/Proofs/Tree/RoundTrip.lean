import LeastSquares.Proofs.Exact.Number
import LeastSquares.Tree.Keys
import LeastSquares.Tree.Lemmas

/-!
# Flattening and unflattening

A tree that is read from a list of leaves has the outline of the tree it is read for: the same nesting,
the same lengths and the same keys. Its leaves are the front of the list, filled up with what is no
number if the list is too short, and the entries behind them are left over. So a tree is told by its
outline and its leaves, and the lists that it can be rebuilt from are those with as many entries as it
has leaves (`unflatten_roundTrip`).

A map is collected again from its keys and from its refilled parts. The keys are in order already, so
collecting them changes nothing (`unflatten_ofEntries`).
-/

namespace LeastSquares

section Sorting

variable {δ τ : Type} [Ord δ]

/-- Entries with ascending keys. -/
def Ascending (entries : List (δ × τ)) : Prop :=
  (entries.map Prod.fst).Pairwise (compare · · = .lt)

theorem eq_or_mem_of_mem_putEntry {k : δ} {t : τ} {entry : δ × τ} {entries : List (δ × τ)}
    (h : entry ∈ putEntry k t entries) : entry = (k, t) ∨ entry ∈ entries := by
  induction entries with
  | nil => exact .inl (List.mem_singleton.mp h)
  | cons first rest ih =>
      obtain ⟨k', t'⟩ := first
      unfold putEntry at h
      split at h
      · exact List.mem_cons.mp h
      · exact (List.mem_cons.mp h).imp_right (List.mem_cons_of_mem _)
      · rcases List.mem_cons.mp h with rfl | h
        · exact .inr List.mem_cons_self
        · exact (ih h).imp_right (List.mem_cons_of_mem _)

theorem ascending_cons {k : δ} {t : τ} {entries : List (δ × τ)} :
    Ascending ((k, t) :: entries) ↔
      (∀ entry ∈ entries, compare k entry.1 = .lt) ∧ Ascending entries := by
  rw [Ascending, List.map_cons, List.pairwise_cons, List.forall_mem_map]
  rfl

variable [Std.TransOrd δ]

/-- An entry is put where its key belongs. -/
theorem Ascending.putEntry {entries : List (δ × τ)} (h : Ascending entries) (k : δ) (t : τ) :
    Ascending (putEntry k t entries) := by
  induction entries with
  | nil => exact List.pairwise_singleton _ k
  | cons first rest ih =>
      obtain ⟨k', t'⟩ := first
      obtain ⟨hfirst, hrest⟩ := ascending_cons.mp h
      unfold LeastSquares.putEntry
      split
      case h_1 hlt =>
        refine ascending_cons.mpr ⟨fun entry hentry => ?_, h⟩
        rcases List.mem_cons.mp hentry with rfl | hentry
        · exact hlt
        · exact Std.TransCmp.lt_trans hlt (hfirst entry hentry)
      case h_2 heq =>
        exact ascending_cons.mpr
          ⟨fun entry hentry => Std.TransCmp.lt_of_eq_of_lt heq (hfirst entry hentry), hrest⟩
      case h_3 hgt =>
        refine ascending_cons.mpr ⟨fun entry hentry => ?_, ih hrest⟩
        rcases eq_or_mem_of_mem_putEntry hentry with rfl | hentry
        · exact Std.OrientedCmp.gt_iff_lt.mp hgt
        · exact hfirst entry hentry

theorem ascending_sortEntries (entries : List (δ × τ)) : Ascending (sortEntries entries) := by
  suffices h : ∀ sorted : List (δ × τ), Ascending sorted →
      Ascending (entries.foldl (fun sorted entry => putEntry entry.1 entry.2 sorted) sorted) from
    h [] List.Pairwise.nil
  induction entries with
  | nil => exact fun sorted hsorted => hsorted
  | cons entry rest ih => exact fun sorted hsorted => ih _ (hsorted.putEntry entry.1 entry.2)

/-- An entry with the greatest key comes last. -/
theorem putEntry_eq_append {k : δ} {t : τ} {entries : List (δ × τ)}
    (h : ∀ entry ∈ entries, compare entry.1 k = .lt) : putEntry k t entries = entries ++ [(k, t)] := by
  induction entries with
  | nil => rfl
  | cons first rest ih =>
      obtain ⟨hfirst, hrest⟩ := List.forall_mem_cons.mp h
      rw [putEntry, Std.OrientedCmp.gt_iff_lt.mpr hfirst, ih hrest]
      rfl

/-- Entries with ascending keys are in order already. -/
theorem Ascending.sortEntries_eq {entries : List (δ × τ)} (h : Ascending entries) :
    sortEntries entries = entries := by
  -- Each entry is put behind all entries that were put before it.
  suffices hfold : ∀ sorted : List (δ × τ), Ascending (sorted ++ entries) →
      entries.foldl (fun sorted entry => LeastSquares.putEntry entry.1 entry.2 sorted) sorted =
        sorted ++ entries from hfold [] h
  clear h
  induction entries with
  | nil => exact fun sorted _ => (List.append_nil sorted).symm
  | cons entry rest ih =>
      intro sorted hsorted
      have hlast : ∀ earlier ∈ sorted, compare earlier.1 entry.1 = .lt := by
        rw [Ascending, List.map_append, List.pairwise_append] at hsorted
        exact fun earlier hearlier =>
          hsorted.2.2 _ (List.mem_map_of_mem hearlier) _ List.mem_cons_self
      rw [List.foldl_cons, putEntry_eq_append hlast, ih _ (by simpa using hsorted)]
      simp

end Sorting

namespace Tree

variable {κ α : Type}

mutual

/-- The nesting, lengths and keys of a tree, read off node by node. -/
def outline : Tree κ α → Tree κ Unit
  | .scalar _ => .scalar ()
  | .array kind xs => .array kind (List.replicate xs.length ())
  | .keyed keys parts => .keyed keys (outlineOfParts parts)
  | .tuple parts => .tuple (outlineOfParts parts)

/-- The outlines of several trees. -/
def outlineOfParts : List (Tree κ α) → List (Tree κ Unit)
  | [] => []
  | t :: rest => t.outline :: outlineOfParts rest

end

mutual

/-- A tree without its scalars is its outline. -/
theorem skeleton_eq_outline : ∀ t : Tree κ α, t.skeleton = t.outline
  | .scalar _ => rfl
  | .array _ ys => by simp [skeleton, refill, outline, takePadded_fst]
  | .keyed _ parts => by simp [skeleton, refill, outline, refillParts_eq_outlineOfParts parts]
  | .tuple parts => by simp [skeleton, refill, outline, refillParts_eq_outlineOfParts parts]

/-- Several trees without their scalars are their outlines. -/
theorem refillParts_eq_outlineOfParts :
    ∀ parts : List (Tree κ α), (refillParts () parts []).1 = outlineOfParts parts
  | [] => rfl
  | t :: rest => by
      have ht := skeleton_eq_outline t
      rw [skeleton] at ht
      simp [refillParts, outlineOfParts, refill_snd, ht, refillParts_eq_outlineOfParts rest]

end

section LayoutSize

/-- Adding up a front part and then the rest overflows exactly if the sum of both does. -/
theorem checkCount_bind_add {m n : Nat} {rest : Nat → Checked Nat}
    (h : m < countLimit → rest m = checkCount (m + n)) :
    (checkCount m >>= rest) = checkCount (m + n) := by
  by_cases hm : m < countLimit
  · rw [checkCount_eq_ok hm]
    exact h hm
  · rw [checkCount_eq_error hm, checkCount_eq_error (by omega)]
    rfl

mutual

/-- The arrays of a tree hold its leaves, and counting them overflows only if their number does. -/
theorem foldlM_shapes : ∀ (t : Tree κ α) (total : Nat), total < countLimit →
    t.shapes.foldlM (fun total shape => do checkCount (total + (← shape.size))) total =
      checkCount (total + t.size)
  | .scalar _, total, _ => by
      simp only [shapes, size, List.foldlM_cons, List.foldlM_nil, bind_pure]
      rfl
  | .array _ xs, total, _ => by
      have hlength : (ArrayShape.vector xs.length).size = checkCount xs.length := by
        simp only [ArrayShape.vector, ArrayShape.size, List.foldlM_cons, List.foldlM_nil, bind_pure,
          Nat.one_mul]
      simp only [shapes, size, List.foldlM_cons, List.foldlM_nil, bind_pure, hlength]
      rw [Nat.add_comm total]
      exact checkCount_bind_add fun _ => by rw [Nat.add_comm]
  | .keyed _ parts, total, h => foldlM_shapesOfParts parts total h
  | .tuple parts, total, h => foldlM_shapesOfParts parts total h

/-- The arrays of several trees hold their leaves. -/
theorem foldlM_shapesOfParts : ∀ (parts : List (Tree κ α)) (total : Nat), total < countLimit →
    (shapesOfParts parts).foldlM (fun total shape => do checkCount (total + (← shape.size))) total =
      checkCount (total + sizeOfParts parts)
  | [], total, h => (checkCount_eq_ok h).symm
  | t :: rest, total, h => by
      rw [shapesOfParts, List.foldlM_append, foldlM_shapes t total h, sizeOfParts, ← Nat.add_assoc]
      exact checkCount_bind_add (foldlM_shapesOfParts rest _)

end

/-- The size of the layout of a tree is the number of its leaves, if that is a count. -/
theorem layout_size_eq (t : Tree κ α) : t.layout.size = checkCount t.size := by
  have hfold := foldlM_shapes t 0 (by decide)
  rw [Nat.zero_add] at hfold
  exact hfold

theorem layout_size {t : Tree κ α} (h : t.size < countLimit) : t.layout.size = .ok t.size := by
  rw [layout_size_eq, checkCount_eq_ok h]

end LayoutSize

section Entries

variable {δ : Type} [Ord δ] [Scalar α]

/-- The map of entries whose keys together are given by a function. -/
def ofEntries (keys : List δ → κ) (entries : List (δ × Tree κ α)) : Tree κ α :=
  let sorted := sortEntries entries
  .keyed (keys (sorted.map Prod.fst)) (sorted.map Prod.snd)

/-- The entries of a map with their trees read from a list of leaves, one after another, and the leaves
left over. -/
def unflattenEntries : List (δ × Tree κ α) → List α → List (δ × Tree κ α) × List α
  | [], xs => ([], xs)
  | (k, t) :: rest, xs =>
      let first := t.unflatten xs
      let later := unflattenEntries rest first.2
      ((k, first.1) :: later.1, later.2)

example (entries : List (String × Tree Keys α)) : ofTexts entries = ofEntries .texts entries := rfl

example (entries : List (Int × Tree Keys α)) : ofIndices entries = ofEntries .indices entries := rfl

omit [Ord δ] in
/-- Reading the trees of the entries is reading the parts, beside keys that stay. -/
theorem unflattenEntries_spec (entries : List (δ × Tree κ α)) (xs : List α) :
    (unflattenEntries entries xs).1.map Prod.fst = entries.map Prod.fst ∧
      refillParts Scalar.nan (entries.map Prod.snd) xs =
        ((unflattenEntries entries xs).1.map Prod.snd, (unflattenEntries entries xs).2) := by
  induction entries generalizing xs with
  | nil => exact ⟨rfl, rfl⟩
  | cons entry rest ih =>
      obtain ⟨k, t⟩ := entry
      obtain ⟨hkeys, hparts⟩ := ih (t.unflatten xs).2
      rw [unflatten] at hkeys hparts
      constructor
      · simp [unflattenEntries, unflatten, hkeys]
      · simp [unflattenEntries, unflatten, refillParts, hparts]

/-- A map is read from a list of leaves by collecting its keys with the trees read for its parts. -/
theorem unflatten_ofEntries [Std.TransOrd δ] (keys : List δ → κ) (entries : List (δ × Tree κ α))
    (xs : List α) :
    (ofEntries keys entries).unflatten xs =
      (ofEntries keys (unflattenEntries (sortEntries entries) xs).1,
        (unflattenEntries (sortEntries entries) xs).2) := by
  obtain ⟨hkeys, hparts⟩ := unflattenEntries_spec (sortEntries entries) xs
  have hascending : Ascending (unflattenEntries (sortEntries entries) xs).1 := by
    rw [Ascending, hkeys]
    exact ascending_sortEntries entries
  rw [ofEntries, ofEntries, hascending.sortEntries_eq, unflatten, refill, hparts, hkeys]

end Entries

section RoundTrip

variable [Scalar α]

/-- A tree that is read from a list of leaves in the place of another, and the leaves left over. -/
structure ReadsBack (t : Tree κ α) (xs : List α) (read : Tree κ α × List α) : Prop where
  outline : read.1.outline = t.outline
  layout : read.1.layout = t.layout
  leaves : read.1.leaves = xs.take t.size ++ List.replicate (t.size - xs.length) Scalar.nan
  rest : read.2 = xs.drop (min t.size xs.length)

theorem unflatten_readsBack (t : Tree κ α) (xs : List α) : t.ReadsBack xs (t.unflatten xs) where
  outline := by
    rw [← skeleton_eq_outline, ← skeleton_eq_outline]
    exact skeleton_refill _ t xs
  layout := congrArg Layout.mk (shapes_refill _ t xs)
  leaves := by rw [unflatten, leaves_refill, takePadded_fst]
  rest := by
    rw [unflatten, refill_snd]
    rcases Nat.le_total t.size xs.length with hle | hle
    · rw [Nat.min_eq_left hle]
    · rw [Nat.min_eq_right hle, List.drop_length, List.drop_of_length_le hle]

/-- What is rebuilt has the outline of the tree and the leaves of the list, and nothing else has. -/
theorem rebuild_eq_ok_iff {t u : Tree κ α} {xs : List α} :
    t.rebuild xs = .ok u ↔ u.outline = t.outline ∧ u.leaves = xs := by
  simp only [← skeleton_eq_outline]
  constructor
  · intro h
    by_cases hsize : xs.length = t.size
    · rw [rebuild_eq_ok t hsize] at h
      cases h
      exact ⟨skeleton_withLeaves t xs, leaves_withLeaves t hsize⟩
    · rw [rebuild, if_neg hsize] at h
      cases h
  · rintro ⟨hskeleton, rfl⟩
    have hsize : u.leaves.length = t.size := by rw [leaves_length, size_eq_of_skeleton hskeleton]
    rw [rebuild_eq_ok t hsize]
    refine congrArg Except.ok (eq_of_skeleton_of_leaves ?_ (leaves_withLeaves t hsize))
    rw [skeleton_withLeaves, hskeleton]

theorem exists_rebuild_iff {t : Tree κ α} {xs : List α} :
    (∃ u, t.rebuild xs = .ok u) ↔ xs.length = t.size := by
  constructor
  · rintro ⟨u, hu⟩
    obtain ⟨houtline, rfl⟩ := rebuild_eq_ok_iff.mp hu
    rw [← skeleton_eq_outline, ← skeleton_eq_outline] at houtline
    rw [leaves_length, size_eq_of_skeleton houtline]
  · exact fun hsize => ⟨_, rebuild_eq_ok t hsize⟩

/-- **Flattening and unflattening are inverse to each other.** From any list of leaves a tree of the
same outline is read, a map by collecting its keys again. A tree is rebuilt from its own leaves, the
lists that something is rebuilt from are those of the right length, and what is rebuilt is the one tree
with the outline of the first and with the leaves of the list. The length is also the size of the
layout, as long as sizes do not overflow. -/
theorem unflatten_roundTrip (t : Tree κ α) :
    (t.size < countLimit → t.layout.size = .ok t.size) ∧
    (∀ xs, t.ReadsBack xs (t.unflatten xs)) ∧
    (∀ {δ : Type} [Ord δ] [Std.TransOrd δ] (keys : List δ → κ) (entries : List (δ × Tree κ α)),
      t = ofEntries keys entries → ∀ xs, t.unflatten xs =
        (ofEntries keys (unflattenEntries (sortEntries entries) xs).1,
          (unflattenEntries (sortEntries entries) xs).2)) ∧
    t.rebuild t.leaves = .ok t ∧
    (∀ xs, (∃ u, t.rebuild xs = .ok u) ↔ xs.length = t.size) ∧
    (∀ xs u, t.rebuild xs = .ok u ↔ u.outline = t.outline ∧ u.leaves = xs) := by
  refine ⟨layout_size, t.unflatten_readsBack, ?_, rebuild_eq_ok_iff.mpr ⟨rfl, rfl⟩,
    fun _ => exists_rebuild_iff, fun _ _ => rebuild_eq_ok_iff⟩
  rintro δ _ _ keys entries rfl xs
  exact unflatten_ofEntries keys entries xs

end RoundTrip

section Numbered

open Exact

noncomputable section

/-- A map of two arrays, given in the wrong order. -/
def numbered : List (Int × Tree Keys Exact) :=
  [(2, .array .growable [real 0, real 0]), (1, .array .fixed [real 7])]

/-- Two leaves are enough for the first array and half of the second, and three for both. -/
theorem unflatten_roundTrip_numbered :
    (ofIndices numbered).size < countLimit ∧ (ofIndices numbered).layout.size = .ok 3 ∧
      (ofIndices numbered).unflatten [real 10, real 20] =
        (ofIndices [(1, .array .fixed [real 10]), (2, .array .growable [real 20, .nan])], []) ∧
      (∃ u, (ofIndices numbered).rebuild [real 10, real 20, real 30] = .ok u) ∧
      (ofIndices numbered).rebuild [real 7, real 0, real 0] = .ok (ofIndices numbered) := by
  have hsize : (ofIndices numbered).size < countLimit := by decide
  obtain ⟨hlayout, -, hmap, hleaves, hlength, -⟩ := unflatten_roundTrip (ofIndices numbered)
  exact ⟨hsize, hlayout hsize, hmap .indices numbered rfl _, (hlength _).mpr rfl, hleaves⟩

end

end Numbered

end Tree

end LeastSquares
