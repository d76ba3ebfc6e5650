/-!
# Broken preconditions and reported failures

Two kinds of failure are kept apart. A `Fault` is a broken precondition: sizes that do not fit, so
that no answer has a meaning. A reported failure is an ordinary answer of an operation that looked
at its input and refused it.

`Checked` computations can only fault. An `Outcome` can fault or report; a checked computation
inside an outcome is lifted, and its fault passes through unchanged.
-/

namespace LeastSquares

/-- A precondition that did not hold. -/
inductive Fault
  /-- A tree was given a number of leaves other than its size. -/
  | leafCount (expected actual : Nat)
  /-- A position outside its container. -/
  | outOfRange (index size : Nat)
  /-- Two arrays whose dimensions had to agree. -/
  | dimension (expected actual : Nat)
  /-- A size that does not fit a 64-bit count. -/
  | sizeOverflow
deriving DecidableEq, Repr

/-- Why an operation gave no value. -/
inductive Failure (ε : Type)
  | broken (fault : Fault)
  | reported (error : ε)
deriving DecidableEq, Repr

/-- A computation that can only fail by a broken precondition. -/
abbrev Checked (β : Type) := Except Fault β

/-- A computation that can fail by a broken precondition or by a reported error. -/
abbrev Outcome (ε β : Type) := Except (Failure ε) β

namespace Checked

/-- A checked computation as an outcome that reports nothing. -/
def toOutcome {ε β : Type} : Checked β → Outcome ε β
  | .ok b => .ok b
  | .error fault => .error (.broken fault)

@[simp] theorem toOutcome_ok {ε β : Type} (b : β) :
    (toOutcome (.ok b) : Outcome ε β) = .ok b := rfl

@[simp] theorem toOutcome_error {ε β : Type} (fault : Fault) :
    (toOutcome (.error fault) : Outcome ε β) = .error (.broken fault) := rfl

/-- Go on only if a condition holds. -/
def require (condition : Bool) (fault : Fault) : Checked Unit :=
  if condition then .ok () else .error fault

/-- The entry of a list at a position that has to be there. -/
def entryAt {β : Type} (xs : List β) (index : Nat) : Checked β :=
  match xs[index]? with
  | some x => .ok x
  | none => .error (.outOfRange index xs.length)

@[simp] theorem require_true (fault : Fault) : require true fault = .ok () := rfl

@[simp] theorem require_false (fault : Fault) : require false fault = .error fault := rfl

end Checked

instance (ε : Type) : MonadLift (Except Fault) (Except (Failure ε)) where
  monadLift := Checked.toOutcome

namespace Outcome

variable {ε β : Type}

/-- Refuse with an error. -/
def report (error : ε) : Outcome ε β := .error (.reported error)

/-- Change the error of a refusal; faults pass through. -/
def mapReport {δ : Type} (f : ε → δ) : Outcome ε β → Outcome δ β
  | .ok b => .ok b
  | .error (.broken fault) => .error (.broken fault)
  | .error (.reported error) => .error (.reported (f error))

end Outcome

end LeastSquares
