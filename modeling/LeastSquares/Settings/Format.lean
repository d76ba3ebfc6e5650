import LeastSquares.Json.Number
import LeastSquares.Settings.Record
import LeastSquares.Iteration.Basic
import LeastSquares.LineSearch.FixedStep
import LeastSquares.LineSearch.Backtracking

/-!
# Settings as JSON

Every setting has a JSON form, and reading takes back what writing made. The configuration of a solve,
the tags and the backtracking search fill in their defaults for fields that are missing; the other
records need all of their fields. The norm of Newton's descent has no JSON form: it is left out when
the descent is written, and read as absent.

Scalars are written and read by functions that are passed in, so a caller can choose how much of a
double is shown.
-/

namespace LeastSquares

namespace Json

/-- The count that a value writes. -/
def count? : Json → Option Nat
  | .number n => n.toCount?
  | _ => none

/-- The double that a value writes. -/
def float? : Json → Option Float
  | .number n => n.toFloat?
  | _ => none

/-- A double as a number; one that is not finite as null. -/
def ofFloat (x : Float) : Json := if x.isFinite then .number (.ofFloat x) else .null

end Json

namespace Tags

/-- The fields of tags. -/
def fields : List String := ["symmetric", "positive_semidefinite"]

/-- Tags as an object. -/
def toJson (tags : Tags) : Json :=
  .ofMembers
    [("symmetric", .bool tags.symmetric),
      ("positive_semidefinite", .bool tags.positiveSemidefinite)]

/-- The tags that a value writes. -/
def ofJson? (j : Json) : Option Tags := do
  let record ← JsonRecord.of? fields j
  let symmetric ← record.withDefault "symmetric" Json.bool? false
  let positiveSemidefinite ← record.withDefault "positive_semidefinite" Json.bool? false
  return ⟨symmetric, positiveSemidefinite⟩

end Tags

namespace Config

/-- The fields of a configuration. -/
def fields : List String := ["max_steps", "throw", "tags"]

/-- A configuration as an object. -/
def toJson (config : Config) : Json :=
  .ofMembers
    [("max_steps", .ofNat config.maxSteps), ("throw", .bool config.throw),
      ("tags", config.tags.toJson)]

/-- The configuration that a value writes. -/
def ofJson? (j : Json) : Option Config := do
  let record ← JsonRecord.of? fields j
  let maxSteps ← record.withDefault "max_steps" Json.count? standard.maxSteps
  let throwing ← record.withDefault "throw" Json.bool? standard.throw
  let tags ← record.withDefault "tags" Tags.ofJson? standard.tags
  return ⟨maxSteps, throwing, tags⟩

end Config

namespace Dense.Strategy

/-- A strategy as the name of its variant; the automatic one with its declaration. -/
def toJson : Strategy → Json
  | .auto wellPosed =>
      .ofMembers [("Auto", .ofMembers [("well_posed", (wellPosed.map Json.bool).getD .null)])]
  | .lu => .ofText "Lu"
  | .qr => .ofText "Qr"
  | .cholesky => .ofText "Cholesky"
  | .svd => .ofText "Svd"

/-- The declaration of the automatic strategy. -/
def autoOfJson? (j : Json) : Option Strategy := do
  let record ← JsonRecord.of? ["well_posed"] j
  let wellPosed ← record.optional "well_posed" (Json.nullOr? Json.bool?)
  return .auto wellPosed

/-- The strategy without fields that a name stands for. -/
def ofName? : String → Option Strategy
  | "Lu" => some .lu
  | "Qr" => some .qr
  | "Cholesky" => some .cholesky
  | "Svd" => some .svd
  | _ => none

/-- The strategy that a value writes. -/
def ofJson? (j : Json) : Option Strategy := do
  let (name, body) ← j.variant?
  if name = "Auto" then body.bind autoOfJson?
  else if Json.noFields body then ofName? name
  else none

end Dense.Strategy

namespace NewtonDescent

/-- The fields of Newton's descent. -/
def fields : List String := ["linear_solver"]

/-- Newton's descent as an object, without its norm. -/
def toJson {α : Type} (descent : NewtonDescent α) : Json :=
  .ofMembers [("linear_solver", descent.linearSolver.toJson)]

/-- The descent that a value writes. -/
def ofJson? {α : Type} (j : Json) : Option (NewtonDescent α) := do
  let record ← JsonRecord.of? fields j
  let linearSolver ← record.required "linear_solver" Dense.Strategy.ofJson?
  return ⟨none, linearSolver⟩

end NewtonDescent

namespace FixedStep

/-- The fields of a search with fixed steps. -/
def fields : List String := ["learning_rate"]

/-- A search with fixed steps as an object. -/
def toJson {α : Type} (scalar : α → Json) (search : FixedStep α) : Json :=
  .ofMembers [("learning_rate", scalar search.size)]

/-- The search with fixed steps that a value writes. -/
def ofJson? {α : Type} (scalar : Json → Option α) (j : Json) : Option (FixedStep α) := do
  let record ← JsonRecord.of? fields j
  return ⟨← record.required "learning_rate" scalar⟩

end FixedStep

namespace Backtracking

/-- The fields of a backtracking search. -/
def fields : List String := ["decrease_factor", "slope", "step_init", "max_steps"]

/-- A backtracking search as an object. -/
def toJson {α : Type} (scalar : α → Json) (search : Backtracking α) : Json :=
  .ofMembers
    [("decrease_factor", scalar search.decreaseFactor), ("slope", scalar search.slope),
      ("step_init", scalar search.stepInit), ("max_steps", .ofNat search.maxSteps)]

/-- The backtracking search that a value writes. -/
def ofJson? {α : Type} [Scalar α] (scalar : Json → Option α) (j : Json) :
    Option (Backtracking α) := do
  let record ← JsonRecord.of? fields j
  let decreaseFactor ← record.withDefault "decrease_factor" scalar standard.decreaseFactor
  let slope ← record.withDefault "slope" scalar standard.slope
  let stepInit ← record.withDefault "step_init" scalar standard.stepInit
  let maxSteps ← record.withDefault "max_steps" Json.count? (standard : Backtracking α).maxSteps
  return ⟨decreaseFactor, slope, stepInit, maxSteps⟩

end Backtracking

namespace LineSearchState

/-- The fields of what a search leaves to the next. -/
def fields : List String := ["next_init", "num_steps"]

/-- What a search leaves to the next as an object. -/
def toJson {α : Type} (scalar : α → Json) (state : LineSearchState α) : Json :=
  .ofMembers [("next_init", scalar state.nextInit), ("num_steps", .ofNat state.numSteps)]

/-- What a search leaves to the next, as a value writes it. -/
def ofJson? {α : Type} (scalar : Json → Option α) (j : Json) : Option (LineSearchState α) := do
  let record ← JsonRecord.of? fields j
  let nextInit ← record.required "next_init" scalar
  let numSteps ← record.required "num_steps" Json.count?
  return ⟨nextInit, numSteps⟩

end LineSearchState

namespace Status

/-- A status as its name. -/
def toJson (status : Status) : Json := .ofText status.name

/-- The status that a value writes. -/
def ofJson? (j : Json) : Option Status := do
  let (name, body) ← j.variant?
  if Json.noFields body then ofName? name else none

end Status

end LeastSquares
