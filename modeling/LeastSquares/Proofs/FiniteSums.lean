import LeastSquares.Norm
import LeastSquares.Proofs.Exact.Number

/-!
# Finite sums

In floating point and in exact arithmetic alike, what is not finite is not made good by an addition or
a multiplication: infinities of opposite signs do not cancel, and zero times infinity is no number. So
a sum is finite only if all its terms are, and a sum of squares only if all its leaves are, in
whatever position they stand (`isFinite_of_sumSquaresOf`).
-/

namespace LeastSquares.Scalar

/-- Scalars whose sums and products are finite only if both sides are. -/
class LawfulFinite (α : Type) [Scalar α] : Prop where
  finite_of_add {x y : α} : isFinite (x + y) = true → isFinite x = true ∧ isFinite y = true
  finite_of_mul {x y : α} : isFinite (x * y) = true → isFinite x = true ∧ isFinite y = true

instance : LawfulFinite Exact where
  finite_of_add {x y} h := by
    obtain ⟨z, hz⟩ := Exact.isFinite_iff.mp h
    obtain ⟨hx, hy⟩ := Exact.add_eq_real hz
    exact ⟨Exact.isFinite_iff.mpr hx, Exact.isFinite_iff.mpr hy⟩
  finite_of_mul {x y} h := by
    obtain ⟨z, hz⟩ := Exact.isFinite_iff.mp h
    obtain ⟨hx, hy⟩ := Exact.mul_eq_real hz
    exact ⟨Exact.isFinite_iff.mpr hx, Exact.isFinite_iff.mpr hy⟩

variable {α : Type} [Scalar α] [LawfulFinite α] {xs : List α} {start : α}

/-- A partial sum that is not finite is never made good, and neither is a term. -/
theorem isFinite_of_foldl_add (hfinite : isFinite (xs.foldl (· + ·) start) = true) :
    isFinite start = true ∧ ∀ x ∈ xs, isFinite x = true := by
  induction xs generalizing start with
  | nil => exact ⟨hfinite, fun x hx => absurd hx List.not_mem_nil⟩
  | cons y ys ih =>
      obtain ⟨hsum, hrest⟩ := ih hfinite
      obtain ⟨hstart, hy⟩ := LawfulFinite.finite_of_add hsum
      refine ⟨hstart, fun x hx => ?_⟩
      rcases List.mem_cons.mp hx with rfl | htail
      · exact hy
      · exact hrest x htail

/-- Squares do not hide a leaf that is not finite from their sum. -/
theorem isFinite_of_sumSquaresOf (hfinite : isFinite (sumSquaresOf xs) = true) :
    ∀ x ∈ xs, isFinite x = true := by
  intro x hx
  have hsquare := (isFinite_of_foldl_add hfinite).2 (x * x) (List.mem_map_of_mem hx)
  exact (LawfulFinite.finite_of_mul hsquare).1

end LeastSquares.Scalar
