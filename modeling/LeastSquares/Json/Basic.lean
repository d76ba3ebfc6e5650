/-!
# JSON values

The data of a JSON text. Numbers are kept as they are written, so that a count and a decimal with the
same value stay apart and no digit is lost. The members of an object keep their order, and a name may
occur more than once.

The escapes of a string literal can leave half of a surrogate pair alone. Such a literal spells no
text; it is kept as `unpaired`, because a value nobody asks for may hold it.
-/

namespace LeastSquares

/-- A number as it is written. -/
inductive JsonNumber
  /-- Digits without point or exponent. -/
  | integer (negative : Bool) (value : Nat)
  /-- A coefficient times a power of ten. -/
  | decimal (negative : Bool) (coefficient : Nat) (exponent : Int)
deriving DecidableEq, Repr

/-- A string literal. -/
inductive JsonString
  /-- A literal that spells a text. -/
  | text (s : String)
  /-- A literal with half of a surrogate pair. -/
  | unpaired
deriving DecidableEq, Repr

/-- A JSON value. -/
inductive Json where
  | null
  | bool (b : Bool)
  | number (n : JsonNumber)
  | string (s : JsonString)
  | array (items : List Json)
  /-- Named values in the order they are written in. -/
  | object (members : List (JsonString × Json))
deriving Repr

namespace Json

instance : Inhabited Json := ⟨.null⟩

/-- A text as a value. -/
def ofText (s : String) : Json := .string (.text s)

/-- A count as a value. -/
def ofNat (n : Nat) : Json := .number (.integer false n)

/-- An integer as a value. -/
def ofInt (i : Int) : Json := .number (.integer (i < 0) i.natAbs)

/-- An object with the given members. -/
def ofMembers (members : List (String × Json)) : Json :=
  .object (members.map fun m => (.text m.1, m.2))

/-- The text of a string value. -/
def text? : Json → Option String
  | .string (.text s) => some s
  | _ => none

/-- The value of a truth value. -/
def bool? : Json → Option Bool
  | .bool b => some b
  | _ => none

/-- The items of an array. -/
def items? : Json → Option (List Json)
  | .array items => some items
  | _ => none

/-- The value of an integer. -/
def int? : Json → Option Int
  | .number (.integer negative n) => some (if negative then -(n : Int) else n)
  | _ => none

/-- The first member of an object with the given name. -/
def member? (j : Json) (name : String) : Option Json :=
  match j with
  | .object members => (members.find? fun m => m.1 == .text name).map fun m => m.2
  | _ => none

end Json

end LeastSquares
