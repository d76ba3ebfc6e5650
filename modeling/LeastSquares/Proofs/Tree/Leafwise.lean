import LeastSquares.Proofs.Tree.RoundTrip

/-!
# Leafwise operations

What the operations on the leaves of a tree do, for functions that may keep a state from one leaf to the
next. A stateful map calls its function once for each leaf, in flattening order, and the answer has the
outline of the tree and the results of the calls for its leaves (`mapM_run_iff_calls`). A unit tree comes
from such a map, with a function that counts its calls (`mapM_oneAt`). Two trees are combined leaf by
leaf as soon as they have as many leaves, whatever their outlines are.

Every operation ends with a check that there are as many leaves as the tree declares. A scalar and an
array declare their own length, a map and a tuple what the sizes of their arrays add up to. That is the
number of leaves in every nesting, so the check of a map cannot fail (`mapDeclared_eq`).
-/

namespace LeastSquares

section Calls

variable {σ α β : Type}

/-- A function that keeps a state, called along a list: once for each entry, in order, and each call on
the state that the call before left. -/
inductive Calls (f : α → StateM σ β) : List α → σ → List β → σ → Prop
  | nil (s : σ) : Calls f [] s [] s
  | cons {x : α} {y : β} {xs : List α} {ys : List β} {s s' s'' : σ}
      (first : (f x).run s = (y, s')) (rest : Calls f xs s' ys s'') :
      Calls f (x :: xs) s (y :: ys) s''

variable {f : α → StateM σ β} {xs : List α} {ys : List β} {s s' : σ}

theorem Calls.length_eq (h : Calls f xs s ys s') : ys.length = xs.length := by
  induction h with
  | nil s => rfl
  | cons first rest ih => rw [List.length_cons, List.length_cons, ih]

/-- A stateful map along a list makes these calls and no others. -/
theorem listMapM_run_iff : (xs.mapM f).run s = (ys, s') ↔ Calls f xs s ys s' := by
  induction xs generalizing s ys with
  | nil =>
      constructor
      · intro h
        cases h
        exact .nil _
      · intro h
        cases h
        rfl
  | cons x xs ih =>
      have hrun : ((x :: xs).mapM f).run s =
          (((f x).run s).1 :: ((xs.mapM f).run ((f x).run s).2).1,
            ((xs.mapM f).run ((f x).run s).2).2) := by
        rw [List.mapM_cons]
        rfl
      rw [hrun]
      constructor
      · intro h
        cases h
        exact .cons rfl (ih.mp rfl)
      · intro h
        cases h with
        | cons first rest => rw [first, ih.mpr rest]

end Calls

namespace Tree

variable {κ α σ : Type} {t z u : Tree κ α}

section Declared

/-- How many leaves a tree declares: a scalar and an array know it, and a map and a tuple add up the
sizes of their arrays. -/
def declaredSize : Tree κ α → Checked Nat
  | .scalar _ => .ok 1
  | .array _ xs => .ok xs.length
  | .keyed keys parts => (keyed keys parts).layout.size
  | .tuple parts => (tuple parts).layout.size

/-- A tree declares as many leaves as it has, in every nesting. -/
theorem declaredSize_eq (h : t.size < countLimit) : t.declaredSize = .ok t.size := by
  cases t with
  | scalar x => rfl
  | array kind xs => rfl
  | keyed keys parts => exact layout_size h
  | tuple parts => exact layout_size h

variable [Scalar α]

/-- A tree of the same skeleton with these leaves, if there are as many as the tree declares. -/
def rebuildDeclared (t : Tree κ α) (xs : List α) : Checked (Tree κ α) := do
  let size ← t.declaredSize
  if xs.length = size then return t.withLeaves xs else .error (.leafCount size xs.length)

/-- The check on the declared leaves is the check on the leaves. -/
theorem rebuildDeclared_eq (h : t.size < countLimit) (xs : List α) :
    t.rebuildDeclared xs = t.rebuild xs := by
  rw [rebuildDeclared, declaredSize_eq h]
  rfl

/-- A stateful map with the check on its results. -/
def mapDeclared (f : α → StateM σ α) (t : Tree κ α) : StateM σ (Checked (Tree κ α)) := do
  return t.rebuildDeclared (← t.leaves.mapM f)

end Declared

section Leafwise

variable [Scalar α]

@[simp] theorem outline_withLeaves (t : Tree κ α) (xs : List α) :
    (t.withLeaves xs).outline = t.outline := by
  rw [← skeleton_eq_outline, ← skeleton_eq_outline, skeleton_withLeaves]

theorem mapM_run (f : α → StateM σ α) (t : Tree κ α) (s : σ) :
    (t.mapM f).run s =
      (t.withLeaves ((t.leaves.mapM f).run s).1, ((t.leaves.mapM f).run s).2) := rfl

/-- A stateful map calls its function along the leaves, and puts the results in their places. -/
theorem mapM_run_iff_calls {f : α → StateM σ α} {s s' : σ} :
    (t.mapM f).run s = (u, s') ↔ u.outline = t.outline ∧ Calls f t.leaves s u.leaves s' := by
  cases hrun : (t.leaves.mapM f).run s with
  | mk ys s'' =>
  have hcalls : Calls f t.leaves s ys s'' := listMapM_run_iff.mp hrun
  have hleaves : (t.withLeaves ys).leaves = ys :=
    leaves_withLeaves t (by rw [hcalls.length_eq, leaves_length])
  rw [mapM_run, hrun]
  constructor
  · intro h
    cases h
    refine ⟨outline_withLeaves t ys, ?_⟩
    rw [hleaves]
    exact hcalls
  · rintro ⟨houtline, h⟩
    have hsame : (ys, s'') = (u.leaves, s') := hrun.symm.trans (listMapM_run_iff.mpr h)
    obtain ⟨rfl, rfl⟩ := Prod.mk.inj hsame
    have hrebuild : t.rebuild u.leaves = .ok u := rebuild_eq_ok_iff.mpr ⟨houtline, rfl⟩
    rw [rebuild_eq_ok t (by rw [hcalls.length_eq, leaves_length])] at hrebuild
    rw [Except.ok.inj hrebuild]

/-- The check of a stateful map cannot fail. -/
theorem mapDeclared_eq (h : t.size < countLimit) (f : α → StateM σ α) :
    t.mapDeclared f = do return .ok (← t.mapM f) := by
  funext s
  cases hrun : (t.leaves.mapM f).run s with
  | mk ys s' =>
  have hlength : ys.length = t.size := by
    rw [(listMapM_run_iff.mp hrun).length_eq, leaves_length]
  show (t.rebuildDeclared ((t.leaves.mapM f).run s).1, ((t.leaves.mapM f).run s).2) =
    (.ok (t.withLeaves ((t.leaves.mapM f).run s).1), ((t.leaves.mapM f).run s).2)
  rw [hrun, rebuildDeclared_eq h, rebuild_eq_ok t hlength]

/-- One at the call with a number, and zero at the others. The state counts the calls. -/
def oneAt (index : Nat) (_ : α) : StateM Nat α := do
  let i ← get
  set (i + 1)
  return if i = index then 1 else 0

theorem calls_oneAt (index : Nat) (xs : List α) (i : Nat) :
    Calls (oneAt index) xs i
      ((List.range' i xs.length).map fun j => if j = index then 1 else 0) (i + xs.length) := by
  induction xs generalizing i with
  | nil => exact .nil i
  | cons x xs ih =>
      rw [List.length_cons, List.range'_succ, List.map_cons, Nat.add_comm xs.length,
        ← Nat.add_assoc]
      exact .cons rfl (ih (i + 1))

/-- A unit tree comes from a map that counts its calls. -/
theorem mapM_oneAt (t : Tree κ α) (index : Nat) :
    (t.mapM (oneAt index)).run 0 = (t.unit index, t.leaves.length) := by
  have hcalls := calls_oneAt index t.leaves 0
  rw [← List.range_eq_range', Nat.zero_add] at hcalls
  refine mapM_run_iff_calls.mpr ⟨outline_withLeaves t _, ?_⟩
  rw [leaves_unit, ← leaves_length]
  exact hcalls

/-- The leaves of a unit tree: all zero, but for the position if there is a leaf at it. -/
theorem leaves_unit_eq_set (t : Tree κ α) (index : Nat) :
    (t.unit index).leaves = (List.replicate t.leaves.length 0).set index 1 := by
  rw [leaves_unit, ← leaves_length]
  refine List.ext_getElem (by simp) fun i hi hi' => ?_
  rw [List.getElem_map, List.getElem_range, List.getElem_set, List.getElem_replicate]
  simp only [eq_comm]

/-- Two trees fail to be combined exactly if they have different numbers of leaves. -/
theorem zipWith_faults_iff {g : α → α → α} :
    (∃ fault, t.zipWith g z = .error fault) ↔ t.leaves.length ≠ z.leaves.length := by
  rw [leaves_length, leaves_length]
  constructor
  · rintro ⟨fault, hfault⟩ hsize
    rw [zipWith_eq_ok g hsize] at hfault
    cases hfault
  · intro hsize
    cases hzip : t.zipWith g z with
    | ok v => exact absurd (zipWith_eq_ok_iff.mp hzip).1 hsize
    | error fault => exact ⟨fault, rfl⟩

theorem zipWith_eq_ok_iff_leaves {g : α → α → α} :
    t.zipWith g z = .ok u ↔ t.leaves.length = z.leaves.length ∧ u.outline = t.outline ∧
      u.leaves = List.zipWith g t.leaves z.leaves := by
  by_cases hlength : t.leaves.length = z.leaves.length
  · have hzip : t.zipWith g z = t.rebuild (List.zipWith g t.leaves z.leaves) := if_pos hlength
    rw [hzip, rebuild_eq_ok_iff]
    exact ⟨fun h => ⟨hlength, h⟩, fun h => h.2⟩
  · obtain ⟨fault, hfault⟩ := zipWith_faults_iff.mpr hlength
    rw [hfault]
    constructor
    · intro h
      cases h
    · exact fun h => absurd h.1 hlength

/-- **Leafwise operations.** Leaves, declared size and layout count the same, so that the checks of the
maps cannot fail, as long as the number of leaves is a count. A map calls its function once for each
leaf, in flattening order, each call on the state that the call before left; the answer has the outline
of the tree, and the results of the calls for its leaves. Trees are combined exactly if they have as many
leaves, leaf by leaf in the outline of the first, whatever the outline of the second is. A unit tree is
one at its position and zero elsewhere, and nowhere one if the position is past the leaves. -/
theorem leafwise (t : Tree κ α) :
    (t.leaves.length < countLimit →
      t.declaredSize = .ok t.leaves.length ∧ t.layout.size = .ok t.leaves.length ∧
      (∀ xs, t.rebuildDeclared xs = t.rebuild xs) ∧
      (∀ {σ : Type} (f : α → StateM σ α), t.mapDeclared f = do return .ok (← t.mapM f)) ∧
      (∀ (f : α → α) (x factor : α) (index : Nat),
        ∀ u ∈ [t.map f, t.fill x, t.zeros, t.unit index, t.scale factor],
          t.rebuildDeclared u.leaves = .ok u)) ∧
    (∀ {σ : Type} (f : α → StateM σ α) (s s' : σ) (u : Tree κ α),
      (t.mapM f).run s = (u, s') ↔ u.outline = t.outline ∧ Calls f t.leaves s u.leaves s') ∧
    (∀ (f : α → α), (t.map f).outline = t.outline ∧ (t.map f).leaves = t.leaves.map f) ∧
    (∀ (g : α → α → α) (z : Tree κ α),
      ((∃ fault, t.zipWith g z = .error fault) ↔ t.leaves.length ≠ z.leaves.length) ∧
      ∀ u, t.zipWith g z = .ok u ↔ t.leaves.length = z.leaves.length ∧ u.outline = t.outline ∧
        u.leaves = List.zipWith g t.leaves z.leaves) ∧
    (∀ index, (t.mapM (oneAt index)).run 0 = (t.unit index, t.leaves.length) ∧
      (t.unit index).outline = t.outline ∧
      (t.unit index).leaves = (List.replicate t.leaves.length 0).set index 1 ∧
      (t.leaves.length ≤ index → (t.unit index).leaves = List.replicate t.leaves.length 0)) := by
  refine ⟨fun hcount => ?_, fun f s s' u => mapM_run_iff_calls,
    fun f => ⟨outline_withLeaves t _, leaves_map f t⟩,
    fun g z => ⟨zipWith_faults_iff, fun u => zipWith_eq_ok_iff_leaves⟩,
    fun index => ⟨mapM_oneAt t index, outline_withLeaves t _, leaves_unit_eq_set t index, ?_⟩⟩
  · have hsize : t.size < countLimit := leaves_length t ▸ hcount
    have hrebuild (u : Tree κ α) (h : u.outline = t.outline) : t.rebuildDeclared u.leaves = .ok u := by
      rw [rebuildDeclared_eq hsize]
      exact rebuild_eq_ok_iff.mpr ⟨h, rfl⟩
    rw [leaves_length]
    refine ⟨declaredSize_eq hsize, layout_size hsize, rebuildDeclared_eq hsize,
      fun f => mapDeclared_eq hsize f, fun f x factor index => ?_⟩
    simp only [List.forall_mem_cons]
    exact ⟨hrebuild _ (outline_withLeaves t _), hrebuild _ (outline_withLeaves t _),
      hrebuild _ (outline_withLeaves t _), hrebuild _ (outline_withLeaves t _),
      hrebuild _ (outline_withLeaves t _), fun u hu => nomatch hu⟩
  · intro hindex
    rw [leaves_unit_eq_set, List.set_eq_of_length_le (by rwa [List.length_replicate])]

end Leafwise

section Nested

/-- Three leaves behind a map without entries. -/
def behindEmptyMap : Tree Unit Float :=
  .tuple [.keyed () [], .array .growable [0, 0], .scalar 0]

/-- The map without entries counts nothing, and a flat array of three is combined with the tree. -/
theorem leafwise_behindEmptyMap :
    behindEmptyMap.leaves.length < countLimit ∧ behindEmptyMap.declaredSize = .ok 3 ∧
      behindEmptyMap.layout.size = .ok 3 ∧
      behindEmptyMap.rebuildDeclared (behindEmptyMap.scale 2).leaves = .ok (behindEmptyMap.scale 2) ∧
      (behindEmptyMap.mapM (oneAt 1)).run 0 = (behindEmptyMap.unit 1, 3) ∧
      (behindEmptyMap.unit 1).leaves = [0, 1, 0] ∧ (behindEmptyMap.unit 3).leaves = [0, 0, 0] ∧
      (∃ fault, behindEmptyMap.zipWith (· + ·) (.array .fixed [1, 1]) = .error fault) ∧
      behindEmptyMap.zipWith (fun _ y => y) (.array .fixed [1, 2, 3]) =
        .ok (.tuple [.keyed () [], .array .growable [1, 2], .scalar 3]) := by
  have hcount : behindEmptyMap.leaves.length < countLimit := by decide
  obtain ⟨hagree, -, -, hzip, hunit⟩ := leafwise behindEmptyMap
  obtain ⟨hdeclared, hlayout, -, -, hchecks⟩ := hagree hcount
  exact ⟨hcount, hdeclared, hlayout, hchecks id 0 2 0 _ (by simp), (hunit 1).1, (hunit 1).2.2.1,
    (hunit 3).2.2.2 (by decide), (hzip _ _).1.mpr (by decide),
    ((hzip _ _).2 _).mpr ⟨by decide, rfl, rfl⟩⟩

end Nested

end Tree

end LeastSquares
