import LeastSquares.Fault

/-!
# Sequencing checked computations and outcomes

How a computation made of two parts comes to its answer. A sequence answers exactly when both parts
do, and it fails with whatever fails first. A checked computation inside an outcome is lifted and
answers the same value there.

Two computations that run beside each other are compared by `Related`: they fail alike, or their
answers are related. The relation follows the sequence, so a simulation is proved part by part. One
computation is `Faultless` if it answers something good or reports an error, and this follows the
sequence as well.
-/

namespace LeastSquares

namespace Outcome

variable {ε β γ : Type}

@[simp] theorem ok_bind (b : β) (f : β → Except ε γ) : (Except.ok b >>= f) = f b := rfl

@[simp] theorem error_bind (e : ε) (f : β → Except ε γ) :
    ((Except.error e : Except ε β) >>= f) = Except.error e := rfl

@[simp] theorem pure_eq_ok (b : β) : (pure b : Except ε β) = Except.ok b := rfl

/-- A sequence answers exactly when both of its parts do. -/
theorem bind_eq_ok {x : Except ε β} {f : β → Except ε γ} {c : γ} :
    (x >>= f) = Except.ok c ↔ ∃ b, x = Except.ok b ∧ f b = Except.ok c := by
  cases x with
  | error e => simp
  | ok b => simp

/-- A sequence fails with the failure of its first part, or with that of its second part. -/
theorem bind_eq_error {x : Except ε β} {f : β → Except ε γ} {e : ε} :
    (x >>= f) = Except.error e ↔
      x = Except.error e ∨ ∃ b, x = Except.ok b ∧ f b = Except.error e := by
  cases x with
  | error e' => simp
  | ok b => simp

/-- A computation answers along a list exactly if it answers at every entry, and then with the list of
these answers. -/
theorem mapM_eq_ok_iff {f : β → Except ε γ} {xs : List β} {ys : List γ} :
    xs.mapM f = Except.ok ys ↔ xs.map f = ys.map Except.ok := by
  induction xs generalizing ys with
  | nil => cases ys <;> simp
  | cons x xs ih =>
      simp only [List.mapM_cons, bind_eq_ok, pure_eq_ok, Except.ok.injEq]
      constructor
      · rintro ⟨y, hy, ys', hys, rfl⟩
        rw [List.map_cons, List.map_cons, hy, ih.mp hys]
      · intro h
        cases ys with
        | nil => cases h
        | cons y ys =>
            obtain ⟨hy, hys⟩ := List.cons.inj h
            exact ⟨y, hy, ys, ih.mpr hys, rfl⟩

/-- A computation that answers at every entry of a list answers the list of its answers. -/
theorem mapM_eq_ok {f : β → Except ε γ} {g : β → γ} {xs : List β}
    (h : ∀ x ∈ xs, f x = Except.ok (g x)) : xs.mapM f = Except.ok (xs.map g) := by
  rw [mapM_eq_ok_iff, List.map_map]
  exact List.map_congr_left h

/-- A computation fails along a list exactly if it fails at an entry. -/
theorem mapM_fails_iff {f : β → Except ε γ} {xs : List β} :
    (∃ e, xs.mapM f = Except.error e) ↔ ∃ x ∈ xs, ∃ e, f x = Except.error e := by
  induction xs with
  | nil => simp
  | cons x xs ih =>
      simp only [List.mapM_cons, List.mem_cons, exists_eq_or_imp, ← ih]
      cases hx : f x with
      | error e => simp
      | ok y => simp [bind_eq_error]

/-- Lifting a checked computation is `Checked.toOutcome`. -/
@[simp] theorem liftM_eq_toOutcome (x : Checked β) :
    (liftM x : Outcome ε β) = Checked.toOutcome x := rfl

/-- Two computations with related failures, or with related answers. -/
inductive Related {ε' : Type} (E : ε → ε' → Prop) (R : β → γ → Prop) :
    Except ε β → Except ε' γ → Prop
  | ok {b : β} {c : γ} (h : R b c) : Related E R (.ok b) (.ok c)
  | error {e : ε} {e' : ε'} (h : E e e') : Related E R (.error e) (.error e')

namespace Related

variable {ε' β' γ' : Type} {E : ε → ε' → Prop} {R : β → γ → Prop} {S : β' → γ' → Prop}

/-- Sequences are related when their parts are. -/
theorem bind {x : Except ε β} {y : Except ε' γ} {f : β → Except ε β'} {g : γ → Except ε' γ'}
    (h : Related E R x y) (hf : ∀ b c, R b c → Related E S (f b) (g c)) :
    Related E S (x >>= f) (y >>= g) := by
  cases h with
  | ok hbc => exact hf _ _ hbc
  | error he => exact .error he

/-- Computations that are equal are related by equality. -/
theorem of_eq {x y : Except ε β} (h : x = y) : Related Eq Eq x y := by
  subst h
  cases x with
  | ok b => exact .ok rfl
  | error e => exact .error rfl

/-- Computations that are related by equality are equal. -/
theorem eq {x y : Except ε β} (h : Related Eq Eq x y) : x = y := by
  cases h with
  | ok hbc => rw [hbc]
  | error he => rw [he]

/-- What is related to an answer is a related answer. -/
theorem exists_of_ok_left {b : β} {y : Except ε' γ} (h : Related E R (.ok b) y) :
    ∃ c, y = .ok c ∧ R b c := by
  cases h with
  | ok hbc => exact ⟨_, rfl, hbc⟩

theorem exists_of_ok_right {x : Except ε β} {c : γ} (h : Related E R x (.ok c)) :
    ∃ b, x = .ok b ∧ R b c := by
  cases h with
  | ok hbc => exact ⟨_, rfl, hbc⟩

end Related

/-- A computation without a fault: it answers something with a property, or it reports an error. -/
inductive Faultless (p : β → Prop) : Outcome ε β → Prop
  | ok {b : β} (h : p b) : Faultless p (.ok b)
  | reported (error : ε) : Faultless p (.error (.reported error))

namespace Faultless

variable {p : β → Prop} {q : γ → Prop} {x : Outcome ε β}

/-- A sequence is faultless when its second part is for every good answer of the first. -/
theorem bind {f : β → Outcome ε γ} (h : Faultless p x) (hf : ∀ b, p b → Faultless q (f b)) :
    Faultless q (x >>= f) := by
  cases h with
  | ok hb => exact hf _ hb
  | reported error => exact .reported error

theorem mono {p' : β → Prop} (h : Faultless p x) (himp : ∀ b, p b → p' b) : Faultless p' x := by
  cases h with
  | ok hb => exact .ok (himp _ hb)
  | reported error => exact .reported error

theorem of_ok {b : β} (h : Faultless p x) (hx : x = .ok b) : p b := by
  subst hx
  cases h with
  | ok hb => exact hb

/-- A checked computation that answers, before the rest of an outcome. -/
theorem checked_bind {c : Checked β} {f : β → Outcome ε γ}
    (h : ∃ b, c = .ok b ∧ Faultless q (f b)) : Faultless q (Checked.toOutcome c >>= f) := by
  obtain ⟨b, rfl, hb⟩ := h
  exact hb

end Faultless

end Outcome

namespace Checked

variable {ε β γ : Type}

@[simp] theorem toOutcome_eq_ok {x : Checked β} {b : β} :
    (toOutcome x : Outcome ε β) = Except.ok b ↔ x = Except.ok b := by
  cases x with
  | error fault => simp
  | ok b' => simp

/-- Lifted computations are related as the computations are. -/
theorem toOutcome_related {R : β → γ → Prop} {x : Checked β} {y : Checked γ}
    (h : Outcome.Related Eq R x y) :
    Outcome.Related Eq R (toOutcome x : Outcome ε β) (toOutcome y : Outcome ε γ) := by
  cases h with
  | ok hbc => exact .ok hbc
  | error he => exact .error (congrArg Failure.broken he)

end Checked

end LeastSquares
