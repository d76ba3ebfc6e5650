/-!
# Statuses

A status tells how an iterative solve, a descent or a line search ended. Statuses are ordered by
severity, and combining two keeps the more severe one, so that a specific failure outranks a generic
one and success outranks nothing.
-/

namespace LeastSquares

/-- How a computation ended, in order of severity. -/
inductive Status
  /-- Everything went well. -/
  | successful
  /-- The steps ran out before convergence. -/
  | maxStepsReached
  /-- No acceptable step size was found. -/
  | lineSearchFailed
  /-- A linear system was singular, exactly or numerically. -/
  | singular
  /-- A matrix decomposition broke down. -/
  | breakdown
  /-- A linear system held a value that is not a finite number. -/
  | nonFiniteInput
deriving DecidableEq, Repr

namespace Status

instance : Inhabited Status := ⟨.successful⟩

/-- The position of a status in the order of severity. -/
def severity : Status → Nat
  | .successful => 0
  | .maxStepsReached => 1
  | .lineSearchFailed => 2
  | .singular => 3
  | .breakdown => 4
  | .nonFiniteInput => 5

instance : Ord Status := ⟨fun a b => compare a.severity b.severity⟩

/-- Whether a status is success. -/
def isSuccessful (status : Status) : Bool := status == .successful

/-- The more severe of two statuses. -/
def worse (a b : Status) : Status := if a.severity ≤ b.severity then b else a

/-- The first status if the condition holds, otherwise the second. -/
def choose (condition : Bool) (a b : Status) : Status := if condition then a else b

/-- What a failing status says; nothing for success. -/
def message : Status → String
  | .successful => ""
  | .maxStepsReached =>
      "The maximum number of steps was reached in the nonlinear solver. " ++
      "The problem may not be solveable (e.g., a root-find on a function that " ++
      "has no roots), or you may need to increase `max_steps`."
  | .lineSearchFailed => "The line search could not find a step that decreased the objective."
  | .singular => "A linear solve encountered a singular operator."
  | .breakdown => "A matrix decomposition broke down during a linear solve."
  | .nonFiniteInput => "A linear solve was given NaN or infinite input."

/-- The text of a status: its message, or the word for success. -/
def text : Status → String
  | .successful => "successful"
  | status => status.message

/-- The name of a status. -/
def name : Status → String
  | .successful => "Successful"
  | .maxStepsReached => "NonlinearMaxStepsReached"
  | .lineSearchFailed => "LineSearchFailed"
  | .singular => "Singular"
  | .breakdown => "Breakdown"
  | .nonFiniteInput => "NonFiniteInput"

/-- Every status, from the least severe to the most severe. -/
def all : List Status :=
  [.successful, .maxStepsReached, .lineSearchFailed, .singular, .breakdown, .nonFiniteInput]

/-- The status of a name. -/
def ofName? (name : String) : Option Status := all.find? fun status => status.name == name

@[simp] theorem isSuccessful_iff (status : Status) :
    status.isSuccessful = true ↔ status = .successful := by
  cases status <;> decide

theorem isSuccessful_eq_false {status : Status} (h : status ≠ .successful) :
    status.isSuccessful = false := Bool.eq_false_iff.mpr fun hs => h ((isSuccessful_iff _).mp hs)

end Status

end LeastSquares
