import LeastSquares.Proofs.SpecialValues
import LeastSquares.Proofs.Floating.Binary

/-!
# Floating point and the extended real numbers

A scalar stands for a real number, for an infinity, or for no number. Where it is a number, infinities
included, it compares as the extended real number that it stands for (`compare_toEReal`). Two scalars may
stand for the same one, as the two zeros do; magnitudes do not (`abs_eq_of_toEReal`).

Numbers that are not below zero are kept by additions. There are no infinities of opposite signs among
them, so no sum of them is no number, and rounding is monotone, so no sum is below one of its terms
(`foldl_add_isMagnitude`). What is no number stays in a sum wherever it stands.
-/

namespace LeastSquares.Scalar.Binary

open Float.Model (UnpackedFloat)
open Float.Model.UnpackedFloat (Sign)

variable {α : Type} [Scalar α] [Binary α] {x y z : α} {s : Sign} {a : ℝ} {xs : List α}
  {start : α}

/-! ### The order of the numbers -/

section Order

theorem unpacked_of_not_finite (hx : ¬Scalar.isFinite x = true) :
    (∃ s, unpacked x = .infinity s) ∨ unpacked x = .notANumber := by
  rw [isFinite_eq] at hx
  cases hu : unpacked x with
  | finite s m e hm => exact absurd (by rw [hu]; rfl) hx
  | zero s => exact absurd (by rw [hu]; rfl) hx
  | infinity s => exact .inl ⟨s, rfl⟩
  | notANumber => exact .inr rfl

theorem unpacked_of_isNaN (hx : Scalar.isNaN x = true) : unpacked x = .notANumber :=
  eq_notANumber_of_isNaN ((isNaN_eq x).symm.trans hx)

/-- The extended real number that a scalar stands for; zero if it stands for none. -/
noncomputable def toEReal (x : α) : EReal :=
  match unpacked x with
  | .infinity .positive => ⊤
  | .infinity .negative => ⊥
  | _ => toReal x

theorem toEReal_of_finite (hx : Scalar.isFinite x = true) : toEReal x = toReal x := by
  rw [isFinite_eq] at hx
  unfold toEReal
  split
  · rename_i h
    rw [h] at hx
    cases hx
  · rename_i h
    rw [h] at hx
    cases hx
  · rfl

theorem toEReal_of_posInfinity (h : unpacked x = .infinity .positive) : toEReal x = ⊤ := by
  rw [toEReal, h]

theorem toEReal_of_negInfinity (h : unpacked x = .infinity .negative) : toEReal x = ⊥ := by
  rw [toEReal, h]

/-- A number is finite or one of the infinities. -/
theorem finite_or_infinity (hx : Scalar.isNaN x = false) :
    Scalar.isFinite x = true ∨ ∃ s, unpacked x = .infinity s := by
  by_cases hfinite : Scalar.isFinite x = true
  · exact .inl hfinite
  · refine .inr ((unpacked_of_not_finite hfinite).resolve_right fun hnan => ?_)
    rw [isNaN_eq, hnan] at hx
    cases hx

/-- Finite scalars compare as the real numbers. -/
theorem compare_finite (hx : Scalar.isFinite x = true) (hy : Scalar.isFinite y = true) :
    (unpacked x).compare (unpacked y) = some (compare (toReal x) (toReal y)) := by
  have hlt := Floating.rank_lt_iff (inFormat_unpacked x) (inFormat_unpacked y)
  have hgt := Floating.rank_lt_iff (inFormat_unpacked y) (inFormat_unpacked x)
  rw [compare_unpacked (finite_unpacked hx) (finite_unpacked hy)]
  rcases lt_trichotomy (toReal x) (toReal y) with h | h | h
  · rw [compare_lt_iff_lt.mpr h, compare_lt_iff_lt.mpr (hlt.mpr h)]
  · have hrank := le_antisymm (not_lt.mp (mt hgt.mp h.not_gt)) (not_lt.mp (mt hlt.mp h.not_lt))
    rw [compare_eq_iff_eq.mpr h, compare_eq_iff_eq.mpr hrank]
  · rw [compare_gt_iff_gt.mpr h, compare_gt_iff_gt.mpr (hgt.mpr h)]

theorem compare_infinity_left {u : UnpackedFloat} (hu : u.isFinite = true) :
    (UnpackedFloat.infinity .positive).compare u = some .gt ∧
      (UnpackedFloat.infinity .negative).compare u = some .lt := by
  cases u with
  | finite s m e hm => exact ⟨rfl, rfl⟩
  | zero s => exact ⟨rfl, rfl⟩
  | infinity s => cases hu
  | notANumber => cases hu

theorem compare_infinity_right {u : UnpackedFloat} (hu : u.isFinite = true) :
    u.compare (.infinity .positive) = some .lt ∧ u.compare (.infinity .negative) = some .gt := by
  cases u with
  | finite s m e hm => cases s <;> exact ⟨rfl, rfl⟩
  | zero s => exact ⟨rfl, rfl⟩
  | infinity s => cases hu
  | notANumber => cases hu

/-- Numbers compare as the extended real numbers. -/
theorem compare_toEReal (hx : Scalar.isNaN x = false) (hy : Scalar.isNaN y = false) :
    (unpacked x).compare (unpacked y) = some (compare (toEReal x) (toEReal y)) := by
  rcases finite_or_infinity hx with hx | ⟨s, hs⟩ <;> rcases finite_or_infinity hy with hy | ⟨s', hs'⟩
  · rw [compare_finite hx hy, toEReal_of_finite hx, toEReal_of_finite hy]
    rcases lt_trichotomy (toReal x) (toReal y) with h | h | h
    · rw [compare_lt_iff_lt.mpr h, compare_lt_iff_lt.mpr (EReal.coe_lt_coe_iff.mpr h)]
    · rw [h, compare_eq_iff_eq.mpr rfl, compare_eq_iff_eq.mpr rfl]
    · rw [compare_gt_iff_gt.mpr h, compare_gt_iff_gt.mpr (EReal.coe_lt_coe_iff.mpr h)]
  · obtain ⟨hpos, hneg⟩ := compare_infinity_right (finite_unpacked hx)
    rw [hs', toEReal_of_finite hx]
    cases s' with
    | positive =>
        rw [hpos, toEReal_of_posInfinity hs', compare_lt_iff_lt.mpr (EReal.coe_lt_top _)]
    | negative =>
        rw [hneg, toEReal_of_negInfinity hs', compare_gt_iff_gt.mpr (EReal.bot_lt_coe _)]
  · obtain ⟨hpos, hneg⟩ := compare_infinity_left (finite_unpacked hy)
    rw [hs, toEReal_of_finite hy]
    cases s with
    | positive =>
        rw [hpos, toEReal_of_posInfinity hs, compare_gt_iff_gt.mpr (EReal.coe_lt_top _)]
    | negative =>
        rw [hneg, toEReal_of_negInfinity hs, compare_lt_iff_lt.mpr (EReal.bot_lt_coe _)]
  · have htop : (⊥ : EReal) < ⊤ := bot_lt_top
    rw [hs, hs']
    match s, s' with
    | .positive, .positive =>
        rw [toEReal_of_posInfinity hs, toEReal_of_posInfinity hs', compare_eq_iff_eq.mpr rfl]
        rfl
    | .positive, .negative =>
        rw [toEReal_of_posInfinity hs, toEReal_of_negInfinity hs', compare_gt_iff_gt.mpr htop]
        rfl
    | .negative, .positive =>
        rw [toEReal_of_negInfinity hs, toEReal_of_posInfinity hs', compare_lt_iff_lt.mpr htop]
        rfl
    | .negative, .negative =>
        rw [toEReal_of_negInfinity hs, toEReal_of_negInfinity hs', compare_eq_iff_eq.mpr rfl]
        rfl

theorem lt_iff_toEReal (hx : Scalar.isNaN x = false) (hy : Scalar.isNaN y = false) :
    Scalar.lt x y = true ↔ toEReal x < toEReal y := by
  rw [lt_iff, UnpackedFloat.lt, compare_toEReal hx hy, beq_iff_eq, Option.some.injEq,
    compare_lt_iff_lt]

theorem le_iff_toEReal (hx : Scalar.isNaN x = false) (hy : Scalar.isNaN y = false) :
    Scalar.le x y = true ↔ toEReal x ≤ toEReal y := by
  rw [le_iff, UnpackedFloat.le, compare_toEReal hx hy, Option.any_some, Ordering.isLE_iff_ne_gt]
  exact compare_le_iff_le

theorem abs_eq_of_compare {u v : UnpackedFloat} (h : u.abs.compare v.abs = some .eq) :
    u.abs = v.abs := by
  cases u with
  | notANumber => cases h
  | infinity s =>
      cases v with
      | infinity s' => rfl
      | finite s' m' e' hm' => cases h
      | zero s' => cases h
      | notANumber => cases h
  | zero s =>
      cases v with
      | zero s' => rfl
      | finite s' m' e' hm' => cases h
      | infinity s' => cases h
      | notANumber => cases h
  | finite s m e hm =>
      cases v with
      | finite s' m' e' hm' =>
          have hparts : (compare e e').then (compare m m') = .eq := Option.some.inj h
          obtain ⟨he, hm⟩ := Ordering.then_eq_eq.mp hparts
          cases compare_eq_iff_eq.mp he
          cases compare_eq_iff_eq.mp hm
          rfl
      | zero s' => cases h
      | infinity s' => cases h
      | notANumber => cases h

theorem isNaN_abs (x : α) : Scalar.isNaN (Scalar.abs x) = Scalar.isNaN x := by
  rw [isNaN_eq, isNaN_eq, unpacked_abs]
  cases unpacked x <;> rfl

/-- Magnitudes of one number are the same scalar. -/
theorem abs_eq_of_toEReal (hx : Scalar.isNaN x = false) (hy : Scalar.isNaN y = false)
    (h : toEReal (Scalar.abs x) = toEReal (Scalar.abs y)) : Scalar.abs x = Scalar.abs y := by
  have hcompare := compare_toEReal ((isNaN_abs x).trans hx) ((isNaN_abs y).trans hy)
  rw [compare_eq_iff_eq.mpr h, unpacked_abs, unpacked_abs] at hcompare
  rw [abs_eq, abs_eq, abs_eq_of_compare hcompare]

end Order

/-! ### Magnitudes -/

section Magnitudes

/-- A number that is not below zero, be it infinity. -/
def IsMagnitude (x : α) : Prop :=
  Scalar.isFinite x = true ∧ 0 ≤ toReal x ∨ unpacked x = .infinity .positive

theorem IsMagnitude.isNaN_eq_false (h : IsMagnitude x) : Scalar.isNaN x = false := by
  rcases h with ⟨hfinite, -⟩ | hinfinite
  · exact Binary.isNaN_eq_false hfinite
  · rw [isNaN_eq, hinfinite]
    rfl

theorem IsMagnitude.toEReal_nonneg (h : IsMagnitude x) : 0 ≤ toEReal x := by
  rcases h with ⟨hfinite, hnonneg⟩ | hinfinite
  · rw [toEReal_of_finite hfinite]
    exact EReal.coe_nonneg.mpr hnonneg
  · rw [toEReal_of_posInfinity hinfinite]
    exact le_top

theorem IsMagnitude.toReal_nonneg (h : IsMagnitude x) (hfinite : Scalar.isFinite x = true) :
    0 ≤ toReal x := by
  have hnonneg := h.toEReal_nonneg
  rw [toEReal_of_finite hfinite] at hnonneg
  exact EReal.coe_nonneg.mp hnonneg

/-- A magnitude that is not above a finite number is finite. -/
theorem IsMagnitude.finite_of_le (h : IsMagnitude x) (hy : Scalar.isFinite y = true)
    (hle : toEReal x ≤ toEReal y) : Scalar.isFinite x = true ∧ toReal x ≤ toReal y := by
  rw [toEReal_of_finite hy] at hle
  have hfinite : Scalar.isFinite x = true := by
    refine (h.resolve_right fun hinfinite => ?_).1
    rw [toEReal_of_posInfinity hinfinite] at hle
    exact not_le.mpr (EReal.coe_lt_top _) hle
  rw [toEReal_of_finite hfinite] at hle
  exact ⟨hfinite, EReal.coe_le_coe_iff.mp hle⟩

theorem IsMagnitude.eq_posInfinity (h : IsMagnitude x) (htop : toEReal x = ⊤) :
    unpacked x = .infinity .positive := by
  refine h.resolve_left fun ⟨hfinite, _⟩ => ?_
  rw [toEReal_of_finite hfinite] at htop
  exact EReal.coe_ne_top _ htop

theorem unpacked_abs_of_infinity (hs : unpacked x = .infinity s) :
    unpacked (Scalar.abs x) = .infinity .positive := by
  rw [unpacked_abs, hs]
  rfl

theorem isMagnitude_abs (hx : Scalar.isNaN x = false) : IsMagnitude (Scalar.abs x) := by
  rcases finite_or_infinity hx with hfinite | ⟨s, hs⟩
  · refine .inl ⟨(isFinite_abs x).trans hfinite, ?_⟩
    rw [toReal_abs]
    exact abs_nonneg _
  · exact .inr (unpacked_abs_of_infinity hs)

/-- A result that is not below zero before it is stored is a number not below zero, or infinity. -/
theorem IsRounded.cases_of_nonneg (h : IsRounded a z) (ha : 0 ≤ a) :
    Scalar.isFinite z = true ∧ 0 ≤ toReal z ∨ unpacked z = .infinity .positive := by
  by_cases hz : Scalar.isFinite z = true
  · exact .inl ⟨hz, h.ge .zero hz ha⟩
  · exact .inr (h.eq_infinity ha hz)

theorem unpacked_mul_self_of_infinity (hs : unpacked x = .infinity s) :
    unpacked (x * x) = .infinity .positive := by
  have hmul : UnpackedFloat.mul (format α) (unpacked x) (unpacked x) = .infinity .positive := by
    rw [hs]
    cases s <;> rfl
  rw [mul_eq, hmul, unpacked_infinity]

theorem isMagnitude_mul_self (hx : Scalar.isNaN x = false) : IsMagnitude (x * x) := by
  rcases finite_or_infinity hx with hfinite | ⟨s, hs⟩
  · exact (mul_isRounded hfinite hfinite).cases_of_nonneg (mul_self_nonneg _)
  · exact .inr (unpacked_mul_self_of_infinity hs)

/-- Infinity times what is above zero is infinity. -/
theorem unpacked_mul_of_infinity (hx : unpacked x = .infinity .positive) (hpos : 0 < toReal y) :
    unpacked (x * y) = .infinity .positive := by
  obtain ⟨m, e, hm, hy, -⟩ := (inFormat_unpacked y).exists_finite hpos
  rw [mul_eq, hx, hy]
  exact unpacked_infinity _

/-- So is infinity divided by it. -/
theorem unpacked_div_of_infinity (hx : unpacked x = .infinity .positive) (hpos : 0 < toReal y) :
    unpacked (x / y) = .infinity .positive := by
  obtain ⟨m, e, hm, hy, -⟩ := (inFormat_unpacked y).exists_finite hpos
  rw [div_eq, hx, hy]
  exact unpacked_infinity _

/-- Infinity and a number that is not below zero make infinity. -/
theorem unpacked_add_of_infinity
    (hx : Scalar.isFinite x = true ∨ unpacked x = .infinity .positive)
    (hy : Scalar.isFinite y = true ∨ unpacked y = .infinity .positive)
    (h : unpacked x = .infinity .positive ∨ unpacked y = .infinity .positive) :
    unpacked (x + y) = .infinity .positive := by
  have hadd : UnpackedFloat.add (format α) (unpacked x) (unpacked y) = .infinity .positive := by
    rw [isFinite_eq] at hx hy
    generalize unpacked x = u at hx h ⊢
    generalize unpacked y = v at hy h ⊢
    rcases h with rfl | rfl
    · rcases hy with hv | rfl
      · cases v with
        | finite s m e hm => rfl
        | zero s => rfl
        | infinity s => cases hv
        | notANumber => cases hv
      · rfl
    · rcases hx with hu | rfl
      · cases u with
        | finite s m e hm => rfl
        | zero s => rfl
        | infinity s => cases hu
        | notANumber => cases hu
      · rfl
  rw [add_eq, hadd, unpacked_infinity]

/-- A sum of magnitudes is one, and is not below either side. -/
theorem IsMagnitude.add (hx : IsMagnitude x) (hy : IsMagnitude y) :
    IsMagnitude (x + y) ∧ toEReal x ≤ toEReal (x + y) ∧ toEReal y ≤ toEReal (x + y) := by
  have hinfinite (h : unpacked (x + y) = .infinity .positive) :
      IsMagnitude (x + y) ∧ toEReal x ≤ toEReal (x + y) ∧ toEReal y ≤ toEReal (x + y) := by
    rw [toEReal_of_posInfinity h]
    exact ⟨.inr h, le_top, le_top⟩
  by_cases h : unpacked x = .infinity .positive ∨ unpacked y = .infinity .positive
  · exact hinfinite (unpacked_add_of_infinity (hx.imp_left And.left) (hy.imp_left And.left) h)
  · obtain ⟨hxnumber, hynumber⟩ := not_or.mp h
    obtain ⟨hxfinite, hxnonneg⟩ := hx.resolve_right hxnumber
    obtain ⟨hyfinite, hynonneg⟩ := hy.resolve_right hynumber
    have hrounded := add_isRounded hxfinite hyfinite
    rcases hrounded.cases_of_nonneg (add_nonneg hxnonneg hynonneg) with ⟨hfinite, hnonneg⟩ | hsum
    · rw [toEReal_of_finite hfinite, toEReal_of_finite hxfinite, toEReal_of_finite hyfinite,
        EReal.coe_le_coe_iff, EReal.coe_le_coe_iff]
      exact ⟨.inl ⟨hfinite, hnonneg⟩,
        hrounded.ge (representable_toReal x) hfinite (le_add_of_nonneg_right hynonneg),
        hrounded.ge (representable_toReal y) hfinite (le_add_of_nonneg_left hxnonneg)⟩
    · exact hinfinite hsum

/-- The induction is on the terms that are left, and the sum so far is a magnitude. -/
theorem foldl_add_isMagnitude (hstart : IsMagnitude start) (hall : ∀ x ∈ xs, IsMagnitude x) :
    IsMagnitude (xs.foldl (· + ·) start) ∧ toEReal start ≤ toEReal (xs.foldl (· + ·) start) ∧
      ∀ x ∈ xs, toEReal x ≤ toEReal (xs.foldl (· + ·) start) := by
  induction xs generalizing start with
  | nil => exact ⟨hstart, le_rfl, fun x hx => absurd hx List.not_mem_nil⟩
  | cons y ys ih =>
      obtain ⟨hsum, hleft, hright⟩ := hstart.add (hall y List.mem_cons_self)
      obtain ⟨hrest, hle, hterms⟩ := ih hsum fun x hx => hall x (List.mem_cons_of_mem y hx)
      refine ⟨hrest, hleft.trans hle, fun x hx => ?_⟩
      rcases List.mem_cons.mp hx with rfl | htail
      · exact hright.trans hle
      · exact hterms x htail

end Magnitudes

/-! ### What is no number -/

section NotANumber

theorem isNaN_of_unpacked (h : unpacked x = .notANumber) : Scalar.isNaN x = true := by
  rw [isNaN_eq, h]
  rfl

/-- An operation that keeps what is no number, on scalars one of which is no number. -/
theorem unpacked_packed_of_nan {op : UnpackedFloat → UnpackedFloat → UnpackedFloat}
    (hleft : ∀ v, op .notANumber v = .notANumber) (hright : ∀ u, op u .notANumber = .notANumber)
    (h : unpacked x = .notANumber ∨ unpacked y = .notANumber) :
    unpacked (packed (op (unpacked x) (unpacked y)) : α) = .notANumber := by
  rcases h with h | h
  · rw [h, hleft, unpacked_notANumber]
  · rw [h, hright, unpacked_notANumber]

theorem unpacked_add_of_nan (h : unpacked x = .notANumber ∨ unpacked y = .notANumber) :
    unpacked (x + y) = .notANumber := by
  rw [add_eq]
  exact unpacked_packed_of_nan (fun _ => rfl) (fun u => by cases u <;> rfl) h

theorem unpacked_mul_of_nan (h : unpacked x = .notANumber ∨ unpacked y = .notANumber) :
    unpacked (x * y) = .notANumber := by
  rw [mul_eq]
  exact unpacked_packed_of_nan (fun _ => rfl) (fun u => by cases u <;> rfl) h

theorem unpacked_div_of_nan (h : unpacked x = .notANumber ∨ unpacked y = .notANumber) :
    unpacked (x / y) = .notANumber := by
  rw [div_eq]
  exact unpacked_packed_of_nan (fun _ => rfl) (fun u => by cases u <;> rfl) h

theorem isNaN_foldl_add (h : Scalar.isNaN start = true ∨ ∃ x ∈ xs, Scalar.isNaN x = true) :
    Scalar.isNaN (xs.foldl (· + ·) start) = true := by
  induction xs generalizing start with
  | nil => exact h.resolve_right fun ⟨x, hx, _⟩ => List.not_mem_nil hx
  | cons y ys ih =>
      have hsum (h : unpacked start = .notANumber ∨ unpacked y = .notANumber) :
          Scalar.isNaN (start + y) = true := isNaN_of_unpacked (unpacked_add_of_nan h)
      refine ih ?_
      rcases h with h | ⟨x, hx, hnan⟩
      · exact .inl (hsum (.inl (unpacked_of_isNaN h)))
      · rcases List.mem_cons.mp hx with rfl | htail
        · exact .inl (hsum (.inr (unpacked_of_isNaN hnan)))
        · exact .inr ⟨x, htail, hnan⟩

end NotANumber

end LeastSquares.Scalar.Binary
