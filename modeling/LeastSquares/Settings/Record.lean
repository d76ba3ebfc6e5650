import LeastSquares.Json.Basic

/-!
# Records and variants in JSON

A record with named fields is written as an object, and read from an object or from an array that
lists the fields by position. In an object the fields come in any order, names that are no field are
passed over with whatever they hold, and a field that comes twice is refused. In an array there may be
fewer items than fields and not more. What a missing field means is for each record to say.

A choice between variants is written as the name of the variant, or as an object whose single member
has that name and holds the fields of the variant.
-/

namespace LeastSquares

/-- The values of the fields of a record. -/
structure JsonRecord where
  /-- The value of a field, if it is there. -/
  value? : String → Option Json
  /-- Whether the fields were given by position. -/
  positional : Bool

namespace JsonRecord

/-- Whether every name of an object spells a text. -/
def namesSpelled (members : List (JsonString × Json)) : Bool :=
  members.all fun m => m.1 != .unpaired

/-- How often a name occurs in an object. -/
def occurrences (members : List (JsonString × Json)) (name : String) : Nat :=
  (members.filter fun m => m.1 == .text name).length

/-- The record with the given fields that a value writes. -/
def of? (fields : List String) (j : Json) : Option JsonRecord :=
  match j with
  | .object members =>
      if namesSpelled members && fields.all fun f => occurrences members f ≤ 1 then
        some ⟨j.member?, false⟩
      else none
  | .array items =>
      if items.length ≤ fields.length then some ⟨fun f => items[fields.idxOf f]?, true⟩ else none
  | _ => none

/-- The value of a field that has to be there. -/
def required {β : Type} (record : JsonRecord) (field : String) (read : Json → Option β) :
    Option β :=
  (record.value? field).bind read

/-- The value of a field, or a default when the field is missing. -/
def withDefault {β : Type} (record : JsonRecord) (field : String) (read : Json → Option β)
    (default : β) : Option β :=
  match record.value? field with
  | some j => read j
  | none => some default

/-- The value of a field that may be left out of an object but not out of an array. -/
def optional {β : Type} (record : JsonRecord) (field : String) (read : Json → Option (Option β)) :
    Option (Option β) :=
  match record.value? field with
  | some j => read j
  | none => if record.positional then none else some none

end JsonRecord

namespace Json

/-- The name of a variant, with its fields if it was written as an object. -/
def variant? : Json → Option (String × Option Json)
  | .string (.text name) => some (name, none)
  | .object [(.text name, fields)] => some (name, some fields)
  | _ => none

/-- Whether the fields of a variant are those of one that has none. -/
def noFields : Option Json → Bool
  | none => true
  | some .null => true
  | some _ => false

/-- Nothing for null, otherwise what is read from the value. -/
def nullOr? {β : Type} (read : Json → Option β) : Json → Option (Option β)
  | .null => some none
  | j => (read j).map some

end Json

end LeastSquares
