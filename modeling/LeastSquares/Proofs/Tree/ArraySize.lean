import Mathlib.Algebra.BigOperators.Group.List.Lemmas
import Mathlib.Algebra.BigOperators.Ring.List
import Mathlib.Algebra.Order.Ring.Nat
import Mathlib.Data.List.Induction
import LeastSquares.Proofs.Outcome
import LeastSquares.Tree.Layout

/-!
# The size of an array

The dimensions of an array are multiplied up from the left, and every product on the way has to be a
count. So the products of leading dimensions decide, and not the product of all of them alone
(`size_prefixes`).

Without a zero the product of all dimensions is the largest one on the way, and the order of the
dimensions does not matter. With a zero it does: nothing behind a zero can be too large any more, while
what stands in front of it still can.
-/

namespace LeastSquares.ArrayShape

variable {front dims : List Nat} {dim : Nat}

/-- Every product of leading dimensions is a count, be it of none, of some or of all. -/
def PrefixesFit (shape : ArrayShape) : Prop :=
  ∀ front, front <+: shape.dims → front.prod < countLimit

section Dimensions

/-- The last dimension is multiplied last. -/
theorem size_concat (front : List Nat) (dim : Nat) :
    size ⟨front ++ [dim]⟩ = size ⟨front⟩ >>= fun product => checkCount (product * dim) := by
  simp only [size, List.foldlM_append, List.foldlM_cons, List.foldlM_nil, bind_pure]

theorem prefixesFit_nil : PrefixesFit ⟨[]⟩ := by
  intro front hfront
  rw [List.prefix_nil.mp hfront]
  decide

theorem prefixesFit_concat : PrefixesFit ⟨front ++ [dim]⟩ ↔
    PrefixesFit ⟨front⟩ ∧ (front ++ [dim]).prod < countLimit := by
  constructor
  · intro h
    exact ⟨fun leading hleading => h leading (hleading.trans (List.prefix_append front [dim])),
      h _ List.prefix_rfl⟩
  · rintro ⟨hfront, hall⟩ leading hleading
    rcases List.prefix_concat_iff.mp hleading with rfl | hleading
    · exact hall
    · exact hfront leading hleading

/-- The induction is on the dimensions from the last one back to the first: what was multiplied before
is the size of an array with fewer dimensions. -/
theorem size_of_prefixesFit (h : PrefixesFit ⟨dims⟩) : size ⟨dims⟩ = .ok dims.prod := by
  induction dims using List.reverseRecOn with
  | nil => rfl
  | append_singleton front dim ih =>
      obtain ⟨hfront, hall⟩ := prefixesFit_concat.mp h
      rw [List.prod_append, List.prod_singleton] at hall ⊢
      rw [size_concat, ih hfront, Outcome.ok_bind, checkCount_eq_ok hall]

theorem size_of_not_prefixesFit (h : ¬PrefixesFit ⟨dims⟩) : size ⟨dims⟩ = .error .sizeOverflow := by
  induction dims using List.reverseRecOn with
  | nil => exact absurd prefixesFit_nil h
  | append_singleton front dim ih =>
      rw [size_concat]
      by_cases hfront : PrefixesFit ⟨front⟩
      · have hall : ¬front.prod * dim < countLimit := by
          intro hlt
          refine h (prefixesFit_concat.mpr ⟨hfront, ?_⟩)
          rwa [List.prod_append, List.prod_singleton]
        rw [size_of_prefixesFit hfront, Outcome.ok_bind, checkCount_eq_error hall]
      · rw [ih hfront, Outcome.error_bind]

/-- Without a zero no product of leading dimensions is above the product of all of them. -/
theorem prefixesFit_iff_of_zero_notMem (hzero : 0 ∉ dims) :
    PrefixesFit ⟨dims⟩ ↔ dims.prod < countLimit := by
  refine ⟨fun h => h dims List.prefix_rfl, fun hall front hfront => ?_⟩
  have hpos : 0 < dims.prod := Nat.pos_of_ne_zero (List.prod_ne_zero hzero)
  exact (Nat.le_of_dvd hpos hfront.sublist.prod_dvd_prod).trans_lt hall

/-- Behind a zero nothing is too large any more. -/
theorem size_append_zero (front back : List Nat) :
    size ⟨front ++ 0 :: back⟩ = (size ⟨front⟩).map fun _ => 0 := by
  have hmap (x : Checked Nat) : (x >>= fun _ => .ok 0) = x.map fun _ => 0 := by cases x <;> rfl
  have hlimit : checkCount 0 = .ok 0 := checkCount_eq_ok (by decide)
  induction back using List.reverseRecOn with
  | nil =>
      rw [size_concat]
      simp only [Nat.mul_zero, hlimit, hmap]
  | append_singleton back dim ih =>
      rw [← List.cons_append, ← List.append_assoc, size_concat, ih]
      cases size ⟨front⟩ with
      | error fault => rfl
      | ok product => simp only [Except.map, Outcome.ok_bind, Nat.zero_mul, hlimit]

end Dimensions

/-- **The size of an array.** It is the product of the dimensions exactly if every product of leading
dimensions is a count, and otherwise it overflows. The order of dimensions that are all above zero
matters neither for the size nor for the overflow. Where a dimension is zero, the size is zero if the
dimensions in front of it do not overflow, whatever stands behind it, and the overflow of those in front
of it is an overflow of all. -/
theorem size_prefixes (shape : ArrayShape) :
    (shape.size = .ok shape.dims.prod ↔ shape.PrefixesFit) ∧
      (shape.size = .error .sizeOverflow ↔ ¬shape.PrefixesFit) ∧
      (0 ∉ shape.dims → ∀ dims, dims.Perm shape.dims → size ⟨dims⟩ = shape.size) ∧
      ∀ front back, shape.dims = front ++ 0 :: back → shape.size = (size ⟨front⟩).map fun _ => 0 := by
  obtain ⟨all⟩ := shape
  have hends : PrefixesFit ⟨all⟩ ∧ size ⟨all⟩ = .ok all.prod ∨
      ¬PrefixesFit ⟨all⟩ ∧ size ⟨all⟩ = .error .sizeOverflow := by
    by_cases h : PrefixesFit ⟨all⟩
    · exact .inl ⟨h, size_of_prefixesFit h⟩
    · exact .inr ⟨h, size_of_not_prefixesFit h⟩
  refine ⟨?_, ?_, fun hzero dims hperm => ?_, ?_⟩
  · rcases hends with ⟨h, hsize⟩ | ⟨h, hsize⟩ <;> simp [h, hsize]
  · rcases hends with ⟨h, hsize⟩ | ⟨h, hsize⟩ <;> simp [h, hsize]
  · have hzero' : 0 ∉ dims := fun hmem => hzero (hperm.mem_iff.mp hmem)
    have hfit : PrefixesFit ⟨dims⟩ ↔ PrefixesFit ⟨all⟩ := by
      rw [prefixesFit_iff_of_zero_notMem hzero', prefixesFit_iff_of_zero_notMem hzero, hperm.prod_eq]
    rcases hends with ⟨h, hsize⟩ | ⟨h, hsize⟩
    · rw [hsize, size_of_prefixesFit (hfit.mpr h), hperm.prod_eq]
    · rw [hsize, size_of_not_prefixesFit (mt hfit.mp h)]
  · rintro front back rfl
    exact size_append_zero front back

/-- A zero in front of what would overflow makes the size zero, and one behind it comes too late. The
order of other dimensions does not matter, and here their product is the largest count. -/
theorem size_prefixes_zero :
    size ⟨[0, 4294967296, 4294967296]⟩ = .ok 0 ∧
      size ⟨[4294967296, 4294967296, 0]⟩ = .error .sizeOverflow ∧
      size ⟨[4294967295, 4294967297]⟩ = size ⟨[4294967297, 4294967295]⟩ ∧
      size ⟨[4294967297, 4294967295]⟩ = .ok (countLimit - 1) :=
  ⟨(size_prefixes ⟨[0, 4294967296, 4294967296]⟩).2.2.2 [] [4294967296, 4294967296] rfl,
    (size_prefixes ⟨[4294967296, 4294967296, 0]⟩).2.2.2 [4294967296, 4294967296] [] rfl,
    (size_prefixes ⟨[4294967297, 4294967295]⟩).2.2.1 (by decide) [4294967295, 4294967297]
      (List.Perm.swap _ _ _), rfl⟩

end LeastSquares.ArrayShape
