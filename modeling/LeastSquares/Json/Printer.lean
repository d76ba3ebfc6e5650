import LeastSquares.Json.Basic

/-!
# Writing JSON

The shortest layout: no blanks, escapes only where the grammar asks for them, and numbers by their
digits. Control characters without a short escape are written in four hexadecimal digits.
-/

namespace LeastSquares.Json

/-- A hexadecimal digit. -/
def hexDigit (n : Nat) : Char := (Nat.digitChar (n % 16))

/-- A character as an escape of four hexadecimal digits. -/
def hexEscape (n : Nat) : List Char :=
  ['\\', 'u', hexDigit (n / 4096), hexDigit (n / 256), hexDigit (n / 16), hexDigit n]

/-- A character inside a string literal. -/
def writeChar (c : Char) : List Char :=
  if c = '"' then ['\\', '"']
  else if c = '\\' then ['\\', '\\']
  else if c = '\n' then ['\\', 'n']
  else if c = '\r' then ['\\', 'r']
  else if c = '\t' then ['\\', 't']
  else if c.toNat < 0x20 then hexEscape c.toNat
  else [c]

/-- A string literal; half of a surrogate pair is written for one that spells no text. -/
def writeString : JsonString → List Char
  | .text s => '"' :: (s.toList.flatMap writeChar ++ ['"'])
  | .unpaired => '"' :: (hexEscape 0xD800 ++ ['"'])

/-- The sign in front of a number. -/
def writeSign (negative : Bool) : List Char := if negative then ['-'] else []

/-- A number. -/
def writeNumber : JsonNumber → List Char
  | .integer negative n => writeSign negative ++ Nat.toDigits 10 n
  | .decimal negative coefficient exponent =>
      writeSign negative ++ Nat.toDigits 10 coefficient ++ ['e'] ++
        writeSign (exponent < 0) ++ Nat.toDigits 10 exponent.natAbs

mutual

/-- The characters of a value. -/
def write : Json → List Char
  | .null => "null".toList
  | .bool true => "true".toList
  | .bool false => "false".toList
  | .number n => writeNumber n
  | .string s => writeString s
  | .array items => '[' :: (writeItems items ++ [']'])
  | .object members => '\x7b' :: (writeMembers members ++ ['\x7d'])

/-- The characters of items with commas between them. -/
def writeItems : List Json → List Char
  | [] => []
  | [item] => write item
  | item :: rest => write item ++ ',' :: writeItems rest

/-- The characters of members with commas between them. -/
def writeMembers : List (JsonString × Json) → List Char
  | [] => []
  | [(name, value)] => writeString name ++ ':' :: write value
  | (name, value) :: rest => writeString name ++ ':' :: write value ++ ',' :: writeMembers rest

end

/-- The text of a value. -/
def render (j : Json) : String := String.ofList j.write

end LeastSquares.Json
