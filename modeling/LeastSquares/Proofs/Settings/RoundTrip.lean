import LeastSquares.Proofs.Json.Doubles
import LeastSquares.Proofs.Json.Text

/-!
# Settings that are written and read

Whatever is written for a setting is read back from its text (`settings_roundTrip`), as long as counts
fit into 64 bits and scalars are finite. How scalars are written and read is left open; all that is
asked is that a finite one comes back, which doubles in seventeen digits do (`readsBackFinite_double`).
Only Newton's descent loses something, its norm.
-/

namespace LeastSquares

section Text

variable {β : Type} (write : β → Json) (read : Json → Option β)

/-- A value is read from the text that is written for another. -/
def ReadsAs (x y : β) : Prop := (Json.parse? (write x).render).bind read = some y

/-- A value is read back from its text. -/
def ReadsBack (x : β) : Prop := ReadsAs write read x x

variable {write read} {x y : β}

/-- A text adds nothing to the value that is written. -/
theorem readsAs_iff : ReadsAs write read x y ↔ read (write x) = some y := by
  rw [ReadsAs, Json.parse?_render, Option.bind_some]

end Text

section Scalars

variable {α : Type} [Scalar α]

/-- Finite scalars are read back from their texts. -/
def ReadsBackFinite (write : α → Json) (read : Json → Option α) : Prop :=
  ∀ x, Scalar.isFinite x = true → ReadsBack write read x

/-- Seventeen digits are enough for a double. -/
theorem readsBackFinite_double : ReadsBackFinite Json.ofFloat Json.float? := fun _ hfinite =>
  readsAs_iff.mpr (Json.float?_ofFloat hfinite)

end Scalars

theorem Json.count?_ofNat {n : Nat} (h : n < 2 ^ 64) : Json.count? (.ofNat n) = some n := if_pos h

/-! Each field of a record is read from the member that was written for it, and from no other. -/

section Records

theorem Tags.ofJson?_toJson (tags : Tags) : Tags.ofJson? tags.toJson = some tags := rfl

theorem Config.ofJson?_toJson {config : Config} (h : config.maxSteps < 2 ^ 64) :
    Config.ofJson? config.toJson = some config := by
  have hfields : Config.ofJson? config.toJson = do
      let maxSteps ← Json.count? (.ofNat config.maxSteps)
      let throwing ← Json.bool? (.bool config.throw)
      let tags ← Tags.ofJson? config.tags.toJson
      return ⟨maxSteps, throwing, tags⟩ := rfl
  rw [hfields, Json.count?_ofNat h]
  rfl

variable {α : Type} {write : α → Json} {read : Json → Option α}

theorem FixedStep.ofJson?_toJson {search : FixedStep α}
    (h : read (write search.size) = some search.size) :
    FixedStep.ofJson? read (search.toJson write) = some search := by
  have hfields : FixedStep.ofJson? read (search.toJson write) = do
      return ⟨← read (write search.size)⟩ := rfl
  rw [hfields, h]
  rfl

theorem Backtracking.ofJson?_toJson [Scalar α] {search : Backtracking α}
    (hdecrease : read (write search.decreaseFactor) = some search.decreaseFactor)
    (hslope : read (write search.slope) = some search.slope)
    (hstep : read (write search.stepInit) = some search.stepInit)
    (hcount : search.maxSteps < 2 ^ 64) :
    Backtracking.ofJson? read (search.toJson write) = some search := by
  have hfields : Backtracking.ofJson? read (search.toJson write) = do
      let decreaseFactor ← read (write search.decreaseFactor)
      let slope ← read (write search.slope)
      let stepInit ← read (write search.stepInit)
      let maxSteps ← Json.count? (.ofNat search.maxSteps)
      return ⟨decreaseFactor, slope, stepInit, maxSteps⟩ := rfl
  rw [hfields, hdecrease, hslope, hstep, Json.count?_ofNat hcount]
  rfl

theorem LineSearchState.ofJson?_toJson {state : LineSearchState α}
    (hinit : read (write state.nextInit) = some state.nextInit) (hcount : state.numSteps < 2 ^ 64) :
    LineSearchState.ofJson? read (state.toJson write) = some state := by
  have hfields : LineSearchState.ofJson? read (state.toJson write) = do
      let nextInit ← read (write state.nextInit)
      let numSteps ← Json.count? (.ofNat state.numSteps)
      return ⟨nextInit, numSteps⟩ := rfl
  rw [hfields, hinit, Json.count?_ofNat hcount]
  rfl

end Records

section Variants

theorem Dense.Strategy.ofJson?_toJson (strategy : Dense.Strategy) :
    Dense.Strategy.ofJson? strategy.toJson = some strategy := by
  cases strategy with
  | auto wellPosed =>
      -- A declaration that is left open is written as null.
      cases wellPosed with
      | none => rfl
      | some declared => rfl
  | lu => rfl
  | qr => rfl
  | cholesky => rfl
  | svd => rfl

theorem Status.ofJson?_toJson (status : Status) : Status.ofJson? status.toJson = some status := by
  cases status <;> rfl

/-- Newton's descent comes back without its norm. -/
theorem NewtonDescent.ofJson?_toJson {α : Type} (descent : NewtonDescent α) :
    NewtonDescent.ofJson? descent.toJson =
      some ({ descent with norm := none } : NewtonDescent α) := by
  have hfields : NewtonDescent.ofJson? (α := α) descent.toJson = do
      let linearSolver ← Dense.Strategy.ofJson? descent.linearSolver.toJson
      return ⟨none, linearSolver⟩ := rfl
  rw [hfields, Dense.Strategy.ofJson?_toJson]
  rfl

end Variants

section Settings

variable {α : Type} [Scalar α]

/-- **Writing and reading.** Every setting is read back from its text, with counts of 64 bits and finite
scalars; of Newton's descent everything but the norm is. -/
theorem settings_roundTrip {write : α → Json} {read : Json → Option α}
    (hscalars : ReadsBackFinite write read) :
    (∀ config : Config, config.maxSteps < 2 ^ 64 → ReadsBack Config.toJson Config.ofJson? config) ∧
    (∀ tags, ReadsBack Tags.toJson Tags.ofJson? tags) ∧
    (∀ strategy, ReadsBack Dense.Strategy.toJson Dense.Strategy.ofJson? strategy) ∧
    (∀ search : FixedStep α, Scalar.isFinite search.size = true →
      ReadsBack (FixedStep.toJson write) (FixedStep.ofJson? read) search) ∧
    (∀ search : Backtracking α, Scalar.isFinite search.decreaseFactor = true →
      Scalar.isFinite search.slope = true → Scalar.isFinite search.stepInit = true →
      search.maxSteps < 2 ^ 64 →
      ReadsBack (Backtracking.toJson write) (Backtracking.ofJson? read) search) ∧
    (∀ state : LineSearchState α, Scalar.isFinite state.nextInit = true →
      state.numSteps < 2 ^ 64 →
      ReadsBack (LineSearchState.toJson write) (LineSearchState.ofJson? read) state) ∧
    (∀ status, ReadsBack Status.toJson Status.ofJson? status) ∧
    (∀ descent : NewtonDescent α, ReadsAs NewtonDescent.toJson NewtonDescent.ofJson? descent
      { descent with norm := none }) := by
  have hscalar (x : α) (hx : Scalar.isFinite x = true) : read (write x) = some x :=
    readsAs_iff.mp (hscalars x hx)
  refine ⟨?config, ?tags, ?strategy, ?fixed, ?backtracking, ?state, ?status, ?descent⟩
  case config => exact fun config h => readsAs_iff.mpr (Config.ofJson?_toJson h)
  case tags => exact fun tags => readsAs_iff.mpr (Tags.ofJson?_toJson tags)
  case strategy => exact fun strategy => readsAs_iff.mpr (Dense.Strategy.ofJson?_toJson strategy)
  case fixed =>
    intro search hsize
    exact readsAs_iff.mpr (FixedStep.ofJson?_toJson (hscalar _ hsize))
  case backtracking =>
    intro search hdecrease hslope hstep hcount
    exact readsAs_iff.mpr (Backtracking.ofJson?_toJson (hscalar _ hdecrease) (hscalar _ hslope)
      (hscalar _ hstep) hcount)
  case state =>
    intro state hinit hcount
    exact readsAs_iff.mpr (LineSearchState.ofJson?_toJson (hscalar _ hinit) hcount)
  case status => exact fun status => readsAs_iff.mpr (Status.ofJson?_toJson status)
  case descent => exact fun descent => readsAs_iff.mpr (NewtonDescent.ofJson?_toJson descent)

/-- A search whose slope has no short decimal and whose count is the largest, and a descent that comes
back without its norm. -/
theorem settings_roundTrip_doubles :
    ReadsBack (Backtracking.toJson Json.ofFloat) (Backtracking.ofJson? Json.float?)
        ⟨0.5, 0.1 + 0.2, 1, 2 ^ 64 - 1⟩ ∧
      ReadsAs NewtonDescent.toJson NewtonDescent.ofJson?
        (⟨some Norm.one, .auto none⟩ : NewtonDescent Float) ⟨none, .auto none⟩ := by
  obtain ⟨-, -, -, -, hbacktracking, -, -, hdescent⟩ := settings_roundTrip readsBackFinite_double
  refine ⟨hbacktracking _ ?_ ?_ ?_ ?_, hdescent _⟩
  all_goals decide

end Settings

end LeastSquares
