import LeastSquares.Json.Basic

/-!
# Reading JSON

One value with blanks around it and nothing else. The grammar is the strict one: no leading zeros, no
sign other than a minus, digits on both sides of a point, no comma before a closing bracket, and no
control characters inside a string.

Every reader takes a list of characters and answers what it read with the characters after it.
-/

namespace LeastSquares.Json

/-- The four blanks. -/
def isBlank (c : Char) : Bool := c = ' ' || c = '\n' || c = '\t' || c = '\r'

/-- The characters after leading blanks. -/
def skipBlanks (cs : List Char) : List Char := cs.dropWhile isBlank

/-- The value of a decimal digit. -/
def digitValue (c : Char) : Nat := c.toNat - '0'.toNat

/-- The number that a list of digits writes. -/
def digitsValue (cs : List Char) : Nat := cs.foldl (fun n c => 10 * n + digitValue c) 0

/-- The digits in front, and the characters after them. -/
def readDigits (cs : List Char) : List Char × List Char := cs.span Char.isDigit

/-- The digits after a point, if there is a point. At least one digit has to follow it. -/
def readFraction : List Char → Option (Option (List Char) × List Char)
  | '.' :: cs =>
      let read := readDigits cs
      if read.1.isEmpty then none else some (some read.1, read.2)
  | cs => some (none, cs)

/-- Digits with a sign that may be left out. -/
def readSignedDigits (cs : List Char) : Option (Int × List Char) :=
  let body := match cs with
    | '+' :: rest => rest
    | '-' :: rest => rest
    | _ => cs
  let read := readDigits body
  if read.1.isEmpty then none
  else
    let size := (digitsValue read.1 : Int)
    some (if cs.head? = some '-' then -size else size, read.2)

/-- An exponent, if there is one. -/
def readExponent : List Char → Option (Option Int × List Char)
  | c :: cs =>
      if c = 'e' || c = 'E' then (readSignedDigits cs).map fun read => (some read.1, read.2)
      else some (none, c :: cs)
  | [] => some (none, [])

/-- A number without its sign. -/
def readUnsigned (negative : Bool) (cs : List Char) : Option (JsonNumber × List Char) := do
  let whole := readDigits cs
  if whole.1.isEmpty || (whole.1.head? = some '0' && 1 < whole.1.length) then none
  else
    let fraction ← readFraction whole.2
    let exponent ← readExponent fraction.2
    let number :=
      match fraction.1, exponent.1 with
      | none, none => JsonNumber.integer negative (digitsValue whole.1)
      | digits, power =>
          let places := digits.getD []
          .decimal negative (digitsValue (whole.1 ++ places)) (power.getD 0 - places.length)
    return (number, exponent.2)

/-- A number. -/
def readNumber : List Char → Option (JsonNumber × List Char)
  | '-' :: cs => readUnsigned true cs
  | cs => readUnsigned false cs

/-- The value of a hexadecimal digit. -/
def hexValue? (c : Char) : Option Nat :=
  if c.isDigit then some (digitValue c)
  else if 'a' ≤ c && c ≤ 'f' then some (c.toNat - 'a'.toNat + 10)
  else if 'A' ≤ c && c ≤ 'F' then some (c.toNat - 'A'.toNat + 10)
  else none

/-- The value of four hexadecimal digits. -/
def readHex : List Char → Option (Nat × List Char)
  | a :: b :: c :: d :: rest => do
      let a ← hexValue? a
      let b ← hexValue? b
      let c ← hexValue? c
      let d ← hexValue? d
      return (((a * 16 + b) * 16 + c) * 16 + d, rest)
  | _ => none

/-- Whether a number is the first half of a surrogate pair. -/
def isHighHalf (n : Nat) : Bool := 0xD800 ≤ n && n < 0xDC00

/-- Whether a number is the second half of a surrogate pair. -/
def isLowHalf (n : Nat) : Bool := 0xDC00 ≤ n && n < 0xE000

/-- The number of the character that a surrogate pair stands for. -/
def joinHalves (high low : Nat) : Nat := 0x10000 + (high - 0xD800) * 0x400 + (low - 0xDC00)

/-- The second half of a surrogate pair in front, written as an escape. -/
def readLowHalf : List Char → Option (Nat × List Char)
  | '\\' :: 'u' :: cs => do
      let read ← readHex cs
      if isLowHalf read.1 then some read else none
  | _ => none

/-- The character that an escape of one letter stands for. -/
def shortEscape? (c : Char) : Option Char :=
  match c with
  | '"' => some '"'
  | '\\' => some '\\'
  | '/' => some '/'
  | 'b' => some (Char.ofNat 8)
  | 'f' => some (Char.ofNat 12)
  | 'n' => some '\n'
  | 'r' => some '\r'
  | 't' => some '\t'
  | _ => none

/-- The character of an escape behind its backslash; no character for half of a surrogate pair. -/
def readEscape : List Char → Option (Option Char × List Char)
  | 'u' :: cs => do
      let read ← readHex cs
      if isHighHalf read.1 then
        match readLowHalf read.2 with
        | some low => return (some (Char.ofNat (joinHalves read.1 low.1)), low.2)
        | none => return (none, read.2)
      else if isLowHalf read.1 then return (none, read.2)
      else return (some (Char.ofNat read.1), read.2)
  | c :: cs => (shortEscape? c).map fun e => (some e, cs)
  | [] => none

/-- The rest of a string literal after its opening quote: the characters, of which one is missing for
every half of a surrogate pair. -/
def readChars : (fuel : Nat) → List Char → Option (List (Option Char) × List Char)
  | 0, _ => none
  | _ + 1, [] => none
  | fuel + 1, c :: cs =>
      if c = '"' then some ([], cs)
      else if c = '\\' then do
        let escape ← readEscape cs
        let later ← readChars fuel escape.2
        return (escape.1 :: later.1, later.2)
      else if c.toNat < 0x20 then none
      else do
        let later ← readChars fuel cs
        return (some c :: later.1, later.2)

/-- The literal that a list of characters spells. -/
def literalOf (cs : List (Option Char)) : JsonString :=
  match cs.mapM id with
  | some cs => .text (String.ofList cs)
  | none => .unpaired

/-- A string literal after its opening quote. -/
def readString (cs : List Char) : Option (JsonString × List Char) :=
  (readChars (cs.length + 1) cs).map fun read => (literalOf read.1, read.2)

/-- The characters after a given beginning. -/
def readWord : List Char → List Char → Option (List Char)
  | [], cs => some cs
  | w :: ws, c :: cs => if w = c then readWord ws cs else none
  | _ :: _, [] => none

mutual

/-- A value, with blanks before it. -/
def readValue : (fuel : Nat) → List Char → Option (Json × List Char)
  | 0, _ => none
  | fuel + 1, cs =>
      match skipBlanks cs with
      | [] => none
      | c :: rest =>
          if c = '"' then (readString rest).map fun read => (.string read.1, read.2)
          else if c = '[' then
            match skipBlanks rest with
            | ']' :: after => some (.array [], after)
            | _ => (readItems fuel rest).map fun read => (.array read.1, read.2)
          else if c = '\x7b' then
            match skipBlanks rest with
            | '\x7d' :: after => some (.object [], after)
            | _ => (readMembers fuel rest).map fun read => (.object read.1, read.2)
          else if c = 'n' then (readWord "ull".toList rest).map fun after => (.null, after)
          else if c = 't' then (readWord "rue".toList rest).map fun after => (.bool true, after)
          else if c = 'f' then (readWord "alse".toList rest).map fun after => (.bool false, after)
          else (readNumber (c :: rest)).map fun read => (.number read.1, read.2)

/-- The items of an array, of which there is at least one, and the closing bracket. -/
def readItems : (fuel : Nat) → List Char → Option (List Json × List Char)
  | 0, _ => none
  | fuel + 1, cs => do
      let first ← readValue fuel cs
      match skipBlanks first.2 with
      | ']' :: after => return ([first.1], after)
      | ',' :: after =>
          let later ← readItems fuel after
          return (first.1 :: later.1, later.2)
      | _ => none

/-- The members of an object, of which there is at least one, and the closing bracket. -/
def readMembers : (fuel : Nat) → List Char → Option (List (JsonString × Json) × List Char)
  | 0, _ => none
  | fuel + 1, cs =>
      match skipBlanks cs with
      | '"' :: rest => do
          let name ← readString rest
          match skipBlanks name.2 with
          | ':' :: body =>
              let value ← readValue fuel body
              match skipBlanks value.2 with
              | '\x7d' :: after => return ([(name.1, value.1)], after)
              | ',' :: after =>
                  let later ← readMembers fuel after
                  return ((name.1, value.1) :: later.1, later.2)
              | _ => none
          | _ => none
      | _ => none

end

/-- The value that a text writes, if the text is one value with blanks around it. -/
def parse? (text : String) : Option Json :=
  let cs := text.toList
  match readValue (cs.length + 1) cs with
  | some (value, rest) => if (skipBlanks rest).isEmpty then some value else none
  | none => none

end LeastSquares.Json
