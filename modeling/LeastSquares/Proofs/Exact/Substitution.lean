import Mathlib.Algebra.BigOperators.Intervals
import Mathlib.Data.List.GetD
import Mathlib.Tactic.FieldSimp
import LeastSquares.Dense.Triangular
import LeastSquares.Proofs.Exact.Jacobian

/-!
# Substitution in exact arithmetic

Substitution divides by the entries of the diagonal without a look at them. In exact arithmetic a
diagonal entry of zero makes the unknown of its row infinite or no number at all, and nothing brings a
real number back. So unknowns that are real numbers tell that no diagonal entry is zero, that the
right-hand side is real, and that they solve the triangular system. How the rows are grouped into
blocks does not matter for this.

Lists are read as the first entries of a sequence, and matrices as the upper left corner of an infinite
array, so that the parts of a system need no conversion of their indices.
-/

namespace LeastSquares

open Matrix Exact LeastSquares.Dense Finset

namespace Exact

/-- The list holds the first entries of a sequence of real numbers. -/
def Reads (xs : List Exact) (x : ℕ → ℝ) : Prop := ∀ i < xs.length, xs.getD i 0 = real (x i)

/-- The matrix is an infinite array of real numbers, with zeros outside its dimensions. -/
def ReadsMatrix (a : DenseMatrix Exact) (A : ℕ → ℕ → ℝ) : Prop := ∀ i j, a.entry i j = real (A i j)

section Folds

/-- Adding products onto a number, or subtracting them from it. -/
theorem foldl_products {f : Exact → Exact → Exact} {s : ℝ}
    (hf : ∀ x y, f (real x) (real y) = real (x + s * y)) {cs xs : List Exact} {c x : ℕ → ℝ}
    (hc : ∀ j, cs.getD j 0 = real (c j)) (hx : Reads xs x) (a : ℝ) :
    (Scalar.products cs xs).foldl f (real a) =
      real (a + s * ∑ j ∈ range xs.length, c j * x j) := by
  induction cs generalizing xs c x a with
  | nil =>
      have hzero (j : ℕ) : c j = 0 := (real.inj (hc j)).symm
      simp [hzero]
  | cons c₀ cs ih =>
      cases xs with
      | nil => simp [Scalar.products]
      | cons x₀ xs =>
          have hfirst : c₀ * x₀ = real (c 0 * x 0) := by
            rw [show c₀ = real (c 0) from hc 0, show x₀ = real (x 0) from hx 0 (Nat.succ_pos _),
              real_mul]
          rw [Scalar.products_cons_cons, List.foldl_cons, hfirst, hf,
            ih (c := fun j => c (j + 1)) (x := fun j => x (j + 1)) (fun j => hc (j + 1))
              (fun j hj => hx (j + 1) (Nat.succ_lt_succ hj)), List.length_cons,
            sum_range_succ' fun j => c j * x j]
          congr 1
          ring

/-- A fold that ends in a real number has begun with one, if no step leads to one from elsewhere. -/
theorem exists_real_of_foldl {f : Exact → Exact → Exact}
    (hf : ∀ a b z, f a b = real z → ∃ x, a = real x) {xs : List Exact} {a : Exact} {z : ℝ}
    (h : xs.foldl f a = real z) : ∃ x, a = real x := by
  induction xs generalizing a with
  | nil => exact ⟨z, h⟩
  | cons x xs ih =>
      obtain ⟨y, hy⟩ := ih h
      exact hf a x y hy

end Folds

section Reading

variable {a : DenseMatrix Exact} {A : ℕ → ℕ → ℝ}

/-- A row from a column on, with zeros behind its end. -/
theorem ReadsMatrix.getD_drop_row (h : ReadsMatrix a A) (i start j : ℕ) :
    ((a.row i).drop start).getD j 0 = real (A i (start + j)) := by
  by_cases hj : start + j < a.ncols
  · simp [DenseMatrix.row, hj, h i (start + j)]
  · have hzero : A i (start + j) = 0 := by
      have hentry := a.entry_of_ncols_le i (Nat.not_lt.mp hj)
      rw [h i (start + j)] at hentry
      exact real.inj hentry
    simp [DenseMatrix.row, hj, hzero]

theorem Reads.take {xs ys : List Exact} {x : ℕ → ℝ} (h : Reads (xs ++ ys) x) : Reads xs x := by
  intro i hi
  have hentry := h i (by rw [List.length_append]; omega)
  rwa [List.getD_append _ _ _ _ hi] at hentry

theorem Reads.drop {xs ys : List Exact} {x : ℕ → ℝ} (h : Reads (xs ++ ys) x) :
    Reads ys fun i => x (xs.length + i) := by
  intro i hi
  have hentry := h (xs.length + i) (by rw [List.length_append]; omega)
  rwa [List.getD_append_right _ _ _ _ (Nat.le_add_right ..), Nat.add_sub_cancel_left] at hentry

end Reading

end Exact

section Blocks

variable {l : DenseMatrix Exact} {A : ℕ → ℕ → ℝ}

/-- The unknowns of `n` rows from row `start` on solve their part of a lower triangular system, and no
diagonal entry of these rows is zero. -/
def SolvesRows (A : ℕ → ℕ → ℝ) (start n : ℕ) (b : List Exact) (x : ℕ → ℝ) : Prop :=
  ∀ i < n, A (start + i) (start + i) ≠ 0 ∧
    b.getD i 0 = real (∑ j ∈ range (i + 1), A (start + i) (start + j) * x j)

/-- A real unknown of a block satisfies its equation. -/
theorem of_blockEntry (hl : ReadsMatrix l A) {start i : ℕ} {b xs : List Exact} {x : ℕ → ℝ}
    (hlength : xs.length = i) (hxs : Reads xs x)
    (hentry : blockEntry l start b xs i = real (x i)) :
    A (start + i) (start + i) ≠ 0 ∧
      b.getD i 0 = real (∑ j ∈ range (i + 1), A (start + i) (start + j) * x j) := by
  unfold blockEntry at hentry
  rw [hl, one_eq] at hentry
  dsimp only at hentry
  obtain ⟨y, hy⟩ := exists_real_of_foldl (fun _ _ _ h => (add_eq_real h).1) hentry
  obtain ⟨⟨β, hβ⟩, inverse, hinverse⟩ := mul_eq_real hy
  obtain ⟨hdiagonal, one, hone, hquotient⟩ := div_real_eq_real hinverse
  obtain rfl := real.inj hone
  refine ⟨hdiagonal, ?_⟩
  have hcoefficients (j : ℕ) : (((l.row (start + i)).drop start).map
      fun x => -(x * real inverse)).getD j 0 = real (-(A (start + i) (start + j) * inverse)) := by
    have hzero : (0 : Exact) = -(0 * real inverse) := by simp
    rw [hzero, List.getD_map, hl.getD_drop_row]
    rfl
  have hsum := foldl_products (f := (· + ·)) (s := 1) (fun x y => by rw [one_mul, real_add])
    hcoefficients hxs (β * inverse)
  rw [hinverse, hβ, real_mul, hsum, hlength] at hentry
  have hshares : ∑ j ∈ range i, -(A (start + i) (start + j) * inverse) * x j =
      -inverse * ∑ j ∈ range i, A (start + i) (start + j) * x j := by
    rw [mul_sum]
    exact sum_congr rfl fun j _ => by ring
  have hsolved := real.inj hentry
  rw [hshares, hquotient] at hsolved
  rw [hβ, sum_range_succ, ← hsolved]
  congr 1
  field_simp
  ring

/-- The unknowns of a block solve its rows. The induction is on the rows of the block. -/
theorem solvesRows_of_blockSubstitution (hl : ReadsMatrix l A) (start : ℕ) (b : List Exact)
    {x : ℕ → ℝ} {n : ℕ} (h : Reads (blockSubstitution l start b n) x) :
    SolvesRows A start n b x := by
  induction n with
  | zero => exact fun i hi => (Nat.not_lt_zero i hi).elim
  | succ n ih =>
      intro i hi
      have hlength := blockSubstitution_length l start b n
      rw [blockSubstitution] at h
      rcases Nat.lt_succ_iff_lt_or_eq.mp hi with hlt | rfl
      · exact ih h.take i hlt
      · refine of_blockEntry hl hlength h.take ?_
        have hlast := h.drop 0 Nat.one_pos
        rw [List.getD_cons_zero, hlength] at hlast
        exact hlast

/-- Shares that are taken from a right-hand side can be given back to it. -/
theorem of_withoutShares (hl : ReadsMatrix l A) {start row count i : ℕ} {xs b : List Exact}
    {x : ℕ → ℝ} {z : ℝ} (hi : i < count) (hxs : Reads xs x)
    (h : (withoutShares l start row count xs b).getD i 0 = real z) :
    b.getD i 0 = real (∑ j ∈ range xs.length, A (row + i) (start + j) * x j + z) := by
  have hentry : (withoutShares l start row count xs b).getD i 0 =
      (Scalar.products ((l.row (row + i)).drop start) xs).foldl (· - ·) (b.getD i 0) := by
    simp [withoutShares, hi]
  rw [hentry] at h
  obtain ⟨β, hβ⟩ := exists_real_of_foldl (fun _ _ _ h => (add_eq_real h).1) h
  have hsum := foldl_products (f := (· - ·)) (s := -1)
    (fun x y => by rw [real_sub, neg_one_mul, sub_eq_add_neg]) (hl.getD_drop_row (row + i) start) hxs
    β
  rw [hβ, hsum] at h
  rw [hβ, ← real.inj h]
  congr 1
  ring

/-- The unknowns of a substitution solve its rows. The induction is on the halvings; the shares of the
upper part are given back to the right-hand sides of the lower one. -/
theorem solvesRows_of_substitutionFrom (hl : ReadsMatrix l A) (halvings : ℕ) :
    ∀ {n start : ℕ} {b : List Exact} {x : ℕ → ℝ},
      Reads (substitutionFrom l halvings n start b) x → SolvesRows A start n b x := by
  induction halvings with
  | zero => exact fun h => solvesRows_of_blockSubstitution hl _ _ h
  | succ halvings ih =>
      intro n start b x h
      rw [substitutionFrom] at h
      by_cases hsmall : n ≤ 4
      · rw [if_pos hsmall] at h
        exact solvesRows_of_blockSubstitution hl _ _ h
      · rw [if_neg hsmall] at h
        dsimp only at h
        have hm := upperPart_le n
        generalize upperPart n = m at h hm
        have hlength := substitutionFrom_length l halvings m start (b.take m)
        have hupper := ih h.take
        have hlower := ih h.drop
        rw [hlength] at hlower
        intro i hi
        by_cases him : i < m
        · obtain ⟨hdiagonal, hentry⟩ := hupper i him
          refine ⟨hdiagonal, ?_⟩
          rw [← hentry]
          simp [him]
        · obtain ⟨k, rfl⟩ := Nat.exists_eq_add_of_le (Nat.not_lt.mp him)
          obtain ⟨hdiagonal, hentry⟩ := hlower k (by omega)
          rw [Nat.add_assoc] at hdiagonal
          refine ⟨hdiagonal, ?_⟩
          have hshares := of_withoutShares hl (by omega) (Reads.take h) hentry
          rw [hlength] at hshares
          have hgiven : b.getD (m + k) 0 = (b.drop m).getD k 0 := by simp
          rw [hgiven, hshares, Nat.add_assoc m k 1,
            sum_range_add (fun j => A (start + (m + k)) (start + j) * x j) m (k + 1)]
          simp only [Nat.add_assoc]

end Blocks

section Backward

variable {u : DenseMatrix Exact} {A : ℕ → ℕ → ℝ}

/-- An array counted from row and column `n` backwards. -/
def reversedArray (A : ℕ → ℕ → ℝ) (n i j : ℕ) : ℝ :=
  if i < n ∧ j < n then A (n - 1 - i) (n - 1 - j) else 0

theorem readsMatrix_reversed (hu : ReadsMatrix u A) (n : ℕ) :
    ReadsMatrix (reversed u n) (reversedArray A n) := by
  intro i j
  unfold reversedArray
  by_cases hi : i < n
  · by_cases hj : j < n
    · rw [if_pos ⟨hi, hj⟩, reversed, DenseMatrix.entry_ofFn _ _ _ hi hj, hu]
    · rw [if_neg fun h => hj h.2]
      exact DenseMatrix.entry_of_ncols_le _ _ (Nat.not_lt.mp hj)
  · rw [if_neg fun h => hi h.1]
    exact DenseMatrix.entry_of_nrows_le _ _ (Nat.not_lt.mp hi)

/-- Real unknowns of a substitution from below solve the rows of an upper triangular system. -/
theorem of_backwardSubstitution (hu : ReadsMatrix u A) {n : ℕ} {b : List Exact} {x : ℕ → ℝ}
    (hlength : n ≤ b.length) (h : Reads (backwardSubstitution u n b) x) :
    ∀ i < n, A i i ≠ 0 ∧
      b.getD i 0 = real (∑ j ∈ range (n - i), A i (i + j) * x (i + j)) := by
  have hcount := forwardSubstitution_length (reversed u n) (b.take n).reverse n
  have hreads : Reads (forwardSubstitution (reversed u n) (b.take n).reverse n)
      fun j => x (n - 1 - j) := by
    intro j hj
    rw [hcount] at hj
    have hentry := h (n - 1 - j) (by rw [backwardSubstitution_length]; omega)
    rw [backwardSubstitution, List.getD_reverse _ (by omega), hcount] at hentry
    rwa [show n - 1 - (n - 1 - j) = j by omega] at hentry
  have hrows := solvesRows_of_substitutionFrom (readsMatrix_reversed hu n) n hreads
  intro i hi
  obtain ⟨hdiagonal, hentry⟩ := hrows (n - 1 - i) (by omega)
  have hmirror : n - 1 - (n - 1 - i) = i := by omega
  have harray (j : ℕ) (hj : j < n) :
      reversedArray A n (n - 1 - i) j = A i (n - 1 - j) := by
    rw [reversedArray, if_pos ⟨by omega, hj⟩, hmirror]
  rw [Nat.zero_add, harray _ (by omega), hmirror] at hdiagonal
  have hgiven : (b.take n).reverse.getD (n - 1 - i) 0 = b.getD i 0 := by
    have htake : (b.take n).length = n := List.length_take_of_le hlength
    rw [List.getD_reverse _ (by omega), htake, hmirror]
    simp [hi]
  have hsum : ∑ j ∈ range (n - 1 - i + 1), reversedArray A n (n - 1 - i) j * x (n - 1 - j) =
      ∑ j ∈ range (n - i), A i (i + j) * x (i + j) := by
    rw [show n - 1 - i + 1 = n - i by omega,
      ← sum_range_reflect (fun j => A i (i + j) * x (i + j)) (n - i)]
    refine sum_congr rfl fun j hj => ?_
    have hlt := mem_range.mp hj
    rw [harray j (by omega), show i + (n - i - 1 - j) = n - 1 - j by omega]
  refine ⟨hdiagonal, ?_⟩
  simp only [Nat.zero_add] at hentry
  rw [← hgiven, hentry, hsum]

end Backward

section Matrices

variable {m n : ℕ}

/-- A vector of real numbers as the front of a sequence of zeros. -/
def padded (x : Fin n → ℝ) (i : ℕ) : ℝ := if h : i < n then x ⟨i, h⟩ else 0

theorem readsMatrix_toDense (A : Matrix (Fin m) (Fin n) ℝ) : ReadsMatrix (toDense A) (extend A) := by
  intro i j
  unfold extend
  by_cases h : i < m ∧ j < n
  · rw [dif_pos h, toDense, DenseMatrix.entry_ofFn _ _ _ h.1 h.2, dif_pos h]
  · rw [dif_neg h]
    by_cases hi : i < m
    · exact DenseMatrix.entry_of_ncols_le _ _ (Nat.not_lt.mp fun hj => h ⟨hi, hj⟩)
    · exact DenseMatrix.entry_of_nrows_le _ _ (Nat.not_lt.mp hi)

theorem getD_vector (x : Fin n → ℝ) (i : ℕ) : (vector x).getD i 0 = real (padded x i) := by
  unfold padded
  by_cases hi : i < n
  · rw [dif_pos hi, List.getD_eq_getElem _ _ (by simpa using hi), vector_getElem]
  · rw [dif_neg hi, List.getD_eq_default _ _ (by simpa using hi), zero_eq]

theorem reads_vector (x : Fin n → ℝ) : Reads (vector x) (padded x) := fun i _ => getD_vector x i

theorem extend_val (A : Matrix (Fin m) (Fin n) ℝ) (i : Fin m) (j : Fin n) :
    extend A i j = A i j := dif_pos ⟨i.isLt, j.isLt⟩

theorem padded_val (x : Fin n → ℝ) (i : Fin n) : padded x i = x i := dif_pos i.isLt

theorem mulVec_eq_sum (A : Matrix (Fin m) (Fin n) ℝ) (x : Fin n → ℝ) (i : Fin m) :
    (A *ᵥ x) i = ∑ j ∈ range n, extend A i j * padded x j := by
  rw [sum_range fun j => extend A i j * padded x j]
  simp only [extend_val, padded_val]
  rfl

/-- **Substitution from above.** Real unknowns solve the lower triangular system. -/
theorem of_forwardSubstitution_real {L : Matrix (Fin n) (Fin n) ℝ}
    (hlower : ∀ i j, i < j → L i j = 0) {bs : List Exact} {y : Fin n → ℝ}
    (h : forwardSubstitution (toDense L) bs n = vector y) (i : Fin n) :
    L i i ≠ 0 ∧ bs.getD i 0 = real ((L *ᵥ y) i) := by
  have hreads : Reads (forwardSubstitution (toDense L) bs n) (padded y) := by
    rw [h]
    exact reads_vector y
  obtain ⟨hdiagonal, hentry⟩ :=
    solvesRows_of_substitutionFrom (readsMatrix_toDense L) n hreads i i.isLt
  simp only [Nat.zero_add] at hdiagonal hentry
  refine ⟨by rwa [extend_val] at hdiagonal, ?_⟩
  rw [hentry, mulVec_eq_sum]
  congr 1
  refine sum_subset (range_subset_range.mpr i.isLt) fun j hj hlater => ?_
  have hij : i.val < j := by
    rw [mem_range] at hlater
    omega
  have hzero : extend L i j = 0 :=
    (extend_val L i ⟨j, mem_range.mp hj⟩).trans (hlower i ⟨j, mem_range.mp hj⟩ hij)
  rw [hzero, zero_mul]

/-- **Substitution from below.** Real unknowns solve the upper rows of the upper triangular system. -/
theorem of_backwardSubstitution_real (hnm : n ≤ m) {R : Matrix (Fin m) (Fin n) ℝ}
    (hupper : ∀ i j, j.val < i.val → R i j = 0) {bs : List Exact} (hlength : n ≤ bs.length)
    {x : Fin n → ℝ} (h : backwardSubstitution (toDense R) n bs = vector x) (i : Fin n) :
    R (i.castLE hnm) i ≠ 0 ∧ bs.getD i 0 = real ((R *ᵥ x) (i.castLE hnm)) := by
  have hreads : Reads (backwardSubstitution (toDense R) n bs) (padded x) := by
    rw [h]
    exact reads_vector x
  obtain ⟨hdiagonal, hentry⟩ :=
    of_backwardSubstitution (readsMatrix_toDense R) hlength hreads i i.isLt
  have hcorner : extend R i i = R (i.castLE hnm) i := extend_val R (i.castLE hnm) i
  have hval : (i.castLE hnm).val = i.val := rfl
  refine ⟨by rwa [hcorner] at hdiagonal, ?_⟩
  rw [hentry, mulVec_eq_sum]
  congr 1
  rw [hval, show range n = range (i + (n - i)) by rw [Nat.add_sub_cancel' i.isLt.le], sum_range_add,
    right_eq_add]
  refine sum_eq_zero fun j hj => ?_
  have hji : j < i.val := mem_range.mp hj
  have hzero : extend R i j = 0 := (extend_val R (i.castLE hnm) ⟨j, hji.trans i.isLt⟩).trans
    (hupper (i.castLE hnm) ⟨j, hji.trans i.isLt⟩ hji)
  rw [hzero, zero_mul]

end Matrices

end LeastSquares
