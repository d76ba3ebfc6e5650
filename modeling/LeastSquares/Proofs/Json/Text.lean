import Mathlib.Data.List.Basic
import Mathlib.Data.List.TakeDrop
import Mathlib.Data.Nat.Digits.Defs
import LeastSquares.Json.Parser
import LeastSquares.Json.Printer

/-!
# Reading what was written

Every value is read back from its text (`parse?_render`). What is written for a value tells by its first
character how it is to be read, and every value but a number also tells where it ends. A number goes on
as long as there are digits, a point or an exponent, and so what follows it has to start with something
else; a comma and a closing bracket do.

A reader spends one unit of fuel at least on each character, so that the length of a text is fuel
enough.
-/

namespace LeastSquares.Json

/-! ### Digits -/

section Digits

variable {cs rest : List Char}

theorem digitsValue_toDigits (n : Nat) : digitsValue (Nat.toDigits 10 n) = n :=
  Nat.ofDigitChars_toDigits (by decide) (by decide)

theorem isDigit_of_mem {n : Nat} {c : Char} (h : c ∈ Nat.toDigits 10 n) : c.isDigit = true :=
  Nat.isDigit_of_mem_toDigits (by decide) (by decide) h

/-- Nothing but zero is written with a leading zero. -/
theorem eq_zero_of_head? {n : Nat} (h : (Nat.toDigits 10 n).head? = some '0') : n = 0 := by
  induction n using Nat.strong_induction_on with
  | _ n ih =>
      by_cases hn : n < 10
      · rw [Nat.toDigits_of_lt_base hn] at h
        have hdigits : ∀ d < 10, [Nat.digitChar d].head? = some '0' → d = 0 := by decide
        exact hdigits n hn h
      · rw [Nat.toDigits_eq_if (by decide), if_neg hn,
          List.head?_append_of_ne_nil _ Nat.toDigits_ne_nil] at h
        have hzero := ih (n / 10) (by omega) h
        omega

/-- The next character cannot continue a number. -/
def EndsNumber (cs : List Char) : Prop :=
  ∀ c ∈ cs.head?, c.isDigit = false ∧ c ≠ '.' ∧ c ≠ 'e' ∧ c ≠ 'E'

theorem readDigits_append (hcs : ∀ c ∈ cs, c.isDigit = true)
    (hrest : ∀ c ∈ rest.head?, c.isDigit = false) : readDigits (cs ++ rest) = (cs, rest) := by
  have hstop : rest.takeWhile Char.isDigit = [] := by
    cases rest with
    | nil => rfl
    | cons c rest =>
        rw [List.takeWhile_cons, hrest c rfl]
        rfl
  have hkeep : rest.dropWhile Char.isDigit = rest := by
    cases rest with
    | nil => rfl
    | cons c rest =>
        rw [List.dropWhile_cons, hrest c rfl]
        rfl
  rw [readDigits, List.span_eq_takeWhile_dropWhile, List.takeWhile_append_of_pos hcs,
    List.dropWhile_append_of_pos hcs, hstop, hkeep, List.append_nil]

end Digits

/-! ### Numbers -/

section Numbers

variable {cs rest : List Char}

theorem EndsNumber.head_not_digit (h : EndsNumber cs) : ∀ c ∈ cs.head?, c.isDigit = false :=
  fun c hc => (h c hc).1

theorem EndsNumber.readFraction (h : EndsNumber cs) : readFraction cs = some (none, cs) := by
  unfold Json.readFraction
  split
  · rename_i rest
    exact absurd rfl (h '.' rfl).2.1
  · rfl

theorem EndsNumber.readExponent (h : EndsNumber cs) : readExponent cs = some (none, cs) := by
  cases cs with
  | nil => rfl
  | cons c rest =>
      obtain ⟨-, -, he, hE⟩ := h c rfl
      simp [Json.readExponent, he, hE]

/-- The number that digits stand for with an exponent, or without one. -/
def numberOf (negative : Bool) (n : Nat) : Option Int → JsonNumber
  | none => .integer negative n
  | some power => .decimal negative n power

/-- Digits that no point follows are read with the exponent behind them. -/
theorem readUnsigned_toDigits (negative : Bool) (n : Nat) {power : Option Int} {after : List Char}
    (hrest : ∀ c ∈ rest.head?, c.isDigit = false) (hfraction : readFraction rest = some (none, rest))
    (hexponent : readExponent rest = some (power, after)) :
    readUnsigned negative (Nat.toDigits 10 n ++ rest) = some (numberOf negative n power, after) := by
  have hread : readDigits (Nat.toDigits 10 n ++ rest) = (Nat.toDigits 10 n, rest) :=
    readDigits_append (fun c => isDigit_of_mem) hrest
  have hleading : ((Nat.toDigits 10 n).isEmpty ||
      ((Nat.toDigits 10 n).head? = some '0' && 1 < (Nat.toDigits 10 n).length)) = false := by
    rw [Bool.or_eq_false_iff, List.isEmpty_eq_false_iff]
    refine ⟨Nat.toDigits_ne_nil, ?_⟩
    by_cases hhead : (Nat.toDigits 10 n).head? = some '0'
    · rw [eq_zero_of_head? hhead]
      decide
    · simp [hhead]
  simp only [readUnsigned, hread, hleading, hfraction, hexponent, digitsValue_toDigits,
    Bool.false_eq_true, if_false, Option.bind_eq_bind, Option.bind_some, Option.pure_def]
  cases power with
  | none => rfl
  | some power => simp [numberOf, digitsValue_toDigits]

theorem exists_digit_cons (n : Nat) :
    ∃ c cs, Nat.toDigits 10 n = c :: cs ∧ c.isDigit = true := by
  obtain ⟨c, cs, hcs⟩ := List.exists_cons_of_ne_nil (Nat.toDigits_ne_nil (b := 10) (n := n))
  exact ⟨c, cs, hcs, isDigit_of_mem (hcs ▸ List.mem_cons_self)⟩

/-- Characters are told apart by a test. -/
theorem ne_of_test {test : Char → Bool} {c d : Char} (hc : test c = true) (hd : test d = false) :
    c ≠ d := by
  rintro rfl
  rw [hd] at hc
  cases hc

theorem readSignedDigits_writeSign (i : Int) (hrest : ∀ c ∈ rest.head?, c.isDigit = false) :
    readSignedDigits (writeSign (i < 0) ++ Nat.toDigits 10 i.natAbs ++ rest) = some (i, rest) := by
  have hread : readDigits (Nat.toDigits 10 i.natAbs ++ rest) = (Nat.toDigits 10 i.natAbs, rest) :=
    readDigits_append (fun c => isDigit_of_mem) hrest
  have hdigits := digitsValue_toDigits i.natAbs
  obtain ⟨c, cs, hcs, hc⟩ := exists_digit_cons i.natAbs
  have hplus : c ≠ '+' := ne_of_test hc rfl
  have hminus : c ≠ '-' := ne_of_test hc rfl
  rw [hcs] at hread hdigits ⊢
  rw [List.cons_append] at hread
  by_cases hi : i < 0
  · have hvalue : -(i.natAbs : Int) = i := by omega
    simp [writeSign, hi, readSignedDigits, hread, hdigits, -Nat.cast_natAbs, hvalue]
  · have hvalue : (i.natAbs : Int) = i := by omega
    simp [writeSign, hi, readSignedDigits, hread, hdigits, hplus, hminus, -Nat.cast_natAbs, hvalue]

theorem readNumber_writeSign (negative : Bool) (n : Nat) (rest : List Char) :
    readNumber (writeSign negative ++ Nat.toDigits 10 n ++ rest) =
      readUnsigned negative (Nat.toDigits 10 n ++ rest) := by
  cases negative with
  | true => rfl
  | false =>
      obtain ⟨c, cs, hcs, hc⟩ := exists_digit_cons n
      have hminus : c ≠ '-' := ne_of_test hc rfl
      rw [hcs]
      simp [writeSign, readNumber, hminus]

theorem readNumber_writeNumber (n : JsonNumber) (hrest : EndsNumber rest) :
    readNumber (writeNumber n ++ rest) = some (n, rest) := by
  cases n with
  | integer negative n =>
      rw [writeNumber, readNumber_writeSign,
        readUnsigned_toDigits negative n hrest.head_not_digit hrest.readFraction hrest.readExponent]
      rfl
  | decimal negative coefficient exponent =>
      have hexponent : readExponent ('e' ::
          (writeSign (exponent < 0) ++ Nat.toDigits 10 exponent.natAbs ++ rest)) =
            some (some exponent, rest) := by
        simp only [Json.readExponent, decide_true, Bool.true_or, if_true,
          readSignedDigits_writeSign exponent hrest.head_not_digit, Option.map_some]
      have hletter : ∀ c ∈ ('e' :: (writeSign (exponent < 0) ++
          Nat.toDigits 10 exponent.natAbs ++ rest)).head?, c.isDigit = false := by
        rintro c ⟨⟩
        decide
      have happend : writeNumber (.decimal negative coefficient exponent) ++ rest =
          writeSign negative ++ Nat.toDigits 10 coefficient ++ ('e' ::
            (writeSign (exponent < 0) ++ Nat.toDigits 10 exponent.natAbs ++ rest)) := by
        simp only [writeNumber, List.append_assoc, List.cons_append, List.nil_append]
      rw [happend, readNumber_writeSign,
        readUnsigned_toDigits negative coefficient hletter rfl hexponent]
      rfl

end Numbers

/-! ### Strings -/

section Strings

variable {rest : List Char}

theorem hexValue?_hexDigit (n : Nat) : hexValue? (hexDigit n) = some (n % 16) := by
  have hdigits : ∀ d < 16, hexValue? (Nat.digitChar d) = some d := by decide
  exact hdigits _ (Nat.mod_lt n (by decide))

/-- Four hexadecimal digits are enough for a number of sixteen bits. -/
theorem readHex_hexEscape {n : Nat} (hn : n < 65536) (rest : List Char) :
    readHex (hexDigit (n / 4096) :: hexDigit (n / 256) :: hexDigit (n / 16) :: hexDigit n :: rest) =
      some (n, rest) := by
  have hvalue : ((n / 4096 % 16 * 16 + n / 256 % 16) * 16 + n / 16 % 16) * 16 + n % 16 = n := by
    omega
  simp only [readHex, hexValue?_hexDigit, Option.bind_eq_bind, Option.bind_some, Option.pure_def,
    hvalue]

/-- A control character is no half of a surrogate pair. -/
theorem readEscape_hexEscape {c : Char} (hc : c.toNat < 0x20) (rest : List Char) :
    readEscape ('u' :: hexDigit (c.toNat / 4096) :: hexDigit (c.toNat / 256) ::
      hexDigit (c.toNat / 16) :: hexDigit c.toNat :: rest) = some (some c, rest) := by
  have hhigh : isHighHalf c.toNat = false := by
    simp only [isHighHalf, Bool.and_eq_false_iff, decide_eq_false_iff_not]
    omega
  have hlow : isLowHalf c.toNat = false := by
    simp only [isLowHalf, Bool.and_eq_false_iff, decide_eq_false_iff_not]
    omega
  simp only [readEscape, readHex_hexEscape (show c.toNat < 65536 by omega), hhigh, hlow,
    Option.bind_eq_bind, Option.bind_some, Option.pure_def, Char.ofNat_toNat, Bool.false_eq_true,
    if_false]

theorem readChars_escape (fuel : Nat) {c : Option Char} {es cs : List Char}
    (h : readEscape es = some (c, cs)) : readChars (fuel + 1) ('\\' :: es) =
      (readChars fuel cs).map fun later => (c :: later.1, later.2) := by
  have hquote : '\\' ≠ '"' := by decide
  simp only [readChars, h, hquote, if_false, if_true, Option.bind_eq_bind, Option.bind_some,
    Option.map_eq_bind]
  rfl

/-- A character is read back from what was written for it. -/
theorem readChars_writeChar (fuel : Nat) (c : Char) (cs : List Char) :
    readChars (fuel + 1) (writeChar c ++ cs) =
      (readChars fuel cs).map fun later => (some c :: later.1, later.2) := by
  by_cases hshort : c ∈ ['"', '\\', '\n', '\r', '\t']
  · simp only [List.mem_cons, List.not_mem_nil, or_false] at hshort
    rcases hshort with rfl | rfl | rfl | rfl | rfl
    all_goals exact readChars_escape fuel rfl
  · simp only [List.mem_cons, List.not_mem_nil, or_false, not_or] at hshort
    obtain ⟨hquote, hbackslash, hnewline, hreturn, htab⟩ := hshort
    by_cases hcontrol : c.toNat < 0x20
    · have hwritten : writeChar c = hexEscape c.toNat := by
        simp only [writeChar, hquote, hbackslash, hnewline, hreturn, htab, hcontrol, if_false, if_true]
      rw [hwritten]
      exact readChars_escape fuel (readEscape_hexEscape hcontrol cs)
    · have hwritten : writeChar c = [c] := by
        simp only [writeChar, hquote, hbackslash, hnewline, hreturn, htab, hcontrol, if_false]
      rw [hwritten]
      simp only [List.cons_append, List.nil_append, readChars, hquote, hbackslash, hcontrol, if_false,
        Option.map_eq_bind]
      rfl

theorem length_writeChar_pos (c : Char) : 0 < (writeChar c).length := by
  unfold writeChar
  repeat' split
  all_goals exact Nat.zero_lt_succ _

/-- A text is read back up to its closing quote. The induction is on the characters of the text, each of
which takes one unit of fuel. -/
theorem readChars_flatMap {cs : List Char} {fuel : Nat} (hfuel : cs.length < fuel)
    (rest : List Char) : readChars fuel (cs.flatMap writeChar ++ '"' :: rest) =
      some (cs.map some, rest) := by
  induction cs generalizing fuel with
  | nil =>
      obtain ⟨fuel, rfl⟩ := Nat.exists_eq_succ_of_ne_zero (by simpa using hfuel.ne')
      rfl
  | cons c cs ih =>
      obtain ⟨fuel, rfl⟩ := Nat.exists_eq_succ_of_ne_zero (Nat.zero_lt_of_lt hfuel).ne'
      have hlater : readChars fuel (cs.flatMap writeChar ++ '"' :: rest) = some (cs.map some, rest) :=
        ih (by simpa using hfuel)
      rw [List.flatMap_cons, List.append_assoc, Nat.succ_eq_add_one, readChars_writeChar, hlater]
      rfl

theorem length_le_flatMap (cs : List Char) : cs.length ≤ (cs.flatMap writeChar).length := by
  induction cs with
  | nil => exact le_rfl
  | cons c cs ih =>
      have hpos := length_writeChar_pos c
      rw [List.flatMap_cons, List.length_append, List.length_cons]
      omega

theorem literalOf_map_some (cs : List Char) : literalOf (cs.map some) = .text (String.ofList cs) := by
  have hall : (cs.map some).mapM id = some cs := by
    induction cs with
    | nil => rfl
    | cons c cs ih => simp [ih]
  rw [literalOf, hall]

theorem readString_writeString (s : JsonString) (rest : List Char) :
    ∃ cs, writeString s ++ rest = '"' :: cs ∧ readString cs = some (s, rest) := by
  cases s with
  | text s =>
      refine ⟨s.toList.flatMap writeChar ++ '"' :: rest, ?_, ?_⟩
      · simp [writeString]
      · have hle := length_le_flatMap s.toList
        have hfuel : s.toList.length < (s.toList.flatMap writeChar ++ '"' :: rest).length + 1 := by
          rw [List.length_append]
          omega
        rw [readString, readChars_flatMap hfuel rest, Option.map_some, literalOf_map_some,
          String.ofList_toList]
  | unpaired => exact ⟨hexEscape 0xD800 ++ '"' :: rest, rfl, rfl⟩

end Strings

/-! ### Values, items and members -/

section Values

variable {fuel : Nat} {cs after more : List Char}

theorem skipBlanks_cons {c : Char} (h : isBlank c = false) (cs : List Char) :
    skipBlanks (c :: cs) = c :: cs := by
  rw [skipBlanks, List.dropWhile_cons, h]
  rfl

/-- A comma or a closing bracket ends a number. -/
theorem endsNumber_comma : EndsNumber (',' :: cs) := by
  rintro c ⟨⟩
  decide

theorem endsNumber_bracket : EndsNumber (']' :: cs) := by
  rintro c ⟨⟩
  decide

theorem endsNumber_brace : EndsNumber ('\x7d' :: cs) := by
  rintro c ⟨⟩
  decide

/-- A character that a number starts with. -/
def startsNumber (c : Char) : Bool := c = '-' || c.isDigit

/-- A number starts with a minus or a digit. -/
theorem exists_number_cons (n : JsonNumber) :
    ∃ c cs, writeNumber n = c :: cs ∧ startsNumber c = true := by
  have hsigned (negative : Bool) (n : Nat) (rest : List Char) :
      ∃ c cs, writeSign negative ++ Nat.toDigits 10 n ++ rest = c :: cs ∧ startsNumber c = true := by
    cases negative with
    | true => exact ⟨'-', _, rfl, rfl⟩
    | false =>
        obtain ⟨c, cs, hcs, hc⟩ := exists_digit_cons n
        refine ⟨c, cs ++ rest, ?_, ?_⟩
        · rw [hcs]
          rfl
        · rw [startsNumber, hc, Bool.or_true]
  cases n with
  | integer negative n =>
      have h := hsigned negative n []
      rwa [List.append_nil] at h
  | decimal negative coefficient exponent =>
      have h := hsigned negative coefficient
        (['e'] ++ (writeSign (exponent < 0) ++ Nat.toDigits 10 exponent.natAbs))
      simpa only [writeNumber, List.append_assoc] using h

section NumberStart

variable {c : Char} (h : startsNumber c = true)

include h

theorem isBlank_of_startsNumber : isBlank c = false := by
  simp [isBlank, ne_of_test h (d := ' ') rfl, ne_of_test h (d := '\n') rfl,
    ne_of_test h (d := '\t') rfl, ne_of_test h (d := '\r') rfl]

/-- No other value starts like a number. -/
theorem readValue_number (cs : List Char) : readValue (fuel + 1) (c :: cs) =
    (readNumber (c :: cs)).map fun read => (.number read.1, read.2) := by
  simp only [readValue, skipBlanks_cons (isBlank_of_startsNumber h),
    ne_of_test h (d := '"') rfl, ne_of_test h (d := '[') rfl,
    ne_of_test h (d := '\x7b') rfl, ne_of_test h (d := 'n') rfl,
    ne_of_test h (d := 't') rfl, ne_of_test h (d := 'f') rfl, if_false]

end NumberStart

/-- The characters that hold values together are no blanks. -/
theorem isBlank_punctuation : isBlank '"' = false ∧ isBlank '[' = false ∧ isBlank ']' = false ∧
    isBlank '\x7b' = false ∧ isBlank '\x7d' = false ∧ isBlank ':' = false ∧ isBlank ',' = false := by
  decide

theorem readValue_string (cs : List Char) : readValue (fuel + 1) ('"' :: cs) =
    (readString cs).map fun read => (.string read.1, read.2) := rfl

theorem readValue_array {c : Char} {items : List Json} (hblank : isBlank c = false) (hc : c ≠ ']')
    (h : readItems fuel (c :: cs) = some (items, after)) :
    readValue (fuel + 1) ('[' :: c :: cs) = some (.array items, after) := by
  simp [readValue, skipBlanks_cons, isBlank_punctuation, hblank, hc, h]

theorem readValue_object {members : List (JsonString × Json)}
    (h : readMembers fuel ('"' :: cs) = some (members, after)) :
    readValue (fuel + 1) ('\x7b' :: '"' :: cs) = some (.object members, after) := by
  simp [readValue, skipBlanks_cons, isBlank_punctuation, h]

theorem readItems_last {item : Json} (h : readValue fuel cs = some (item, ']' :: after)) :
    readItems (fuel + 1) cs = some ([item], after) := by
  simp [readItems, h, skipBlanks_cons, isBlank_punctuation]

theorem readItems_next {item : Json} {items : List Json}
    (h : readValue fuel cs = some (item, ',' :: more))
    (hlater : readItems fuel more = some (items, after)) :
    readItems (fuel + 1) cs = some (item :: items, after) := by
  simp [readItems, h, hlater, skipBlanks_cons, isBlank_punctuation]

variable {name : JsonString} {value : Json} {body : List Char}

theorem readMembers_last (hname : readString cs = some (name, ':' :: body))
    (hvalue : readValue fuel body = some (value, '\x7d' :: after)) :
    readMembers (fuel + 1) ('"' :: cs) = some ([(name, value)], after) := by
  simp [readMembers, hname, hvalue, skipBlanks_cons, isBlank_punctuation]

theorem readMembers_next {members : List (JsonString × Json)}
    (hname : readString cs = some (name, ':' :: body))
    (hvalue : readValue fuel body = some (value, ',' :: more))
    (hlater : readMembers fuel more = some (members, after)) :
    readMembers (fuel + 1) ('"' :: cs) = some ((name, value) :: members, after) := by
  simp [readMembers, hname, hvalue, hlater, skipBlanks_cons, isBlank_punctuation]

/-- What is written for a value starts with no blank and with no closing bracket. -/
theorem write_eq_cons (j : Json) :
    ∃ c cs, write j = c :: cs ∧ isBlank c = false ∧ c ≠ ']' := by
  cases j with
  | null => exact ⟨'n', _, rfl, by decide, by decide⟩
  | bool b =>
      cases b with
      | true => exact ⟨'t', _, rfl, by decide, by decide⟩
      | false => exact ⟨'f', _, rfl, by decide, by decide⟩
  | number n =>
      obtain ⟨c, cs, hcs, hc⟩ := exists_number_cons n
      exact ⟨c, cs, hcs, isBlank_of_startsNumber hc, ne_of_test hc rfl⟩
  | string s =>
      obtain ⟨cs, hcs, -⟩ := readString_writeString s []
      rw [List.append_nil] at hcs
      exact ⟨'"', cs, hcs, by decide, by decide⟩
  | array items => exact ⟨'[', _, rfl, by decide, by decide⟩
  | object members => exact ⟨'\x7b', _, rfl, by decide, by decide⟩

theorem writeItems_cons_cons (item next : Json) (items : List Json) :
    writeItems (item :: next :: items) = write item ++ ',' :: writeItems (next :: items) := rfl

theorem writeMembers_cons_cons (name : JsonString) (value : Json) (next : JsonString × Json)
    (members : List (JsonString × Json)) : writeMembers ((name, value) :: next :: members) =
      writeString name ++ ':' :: (write value ++ ',' :: writeMembers (next :: members)) := by
  simp [writeMembers]

theorem writeItems_eq_cons (item : Json) (items : List Json) :
    ∃ c cs, writeItems (item :: items) = c :: cs ∧ isBlank c = false ∧ c ≠ ']' := by
  obtain ⟨c, cs, hcs, hc⟩ := write_eq_cons item
  cases items with
  | nil => exact ⟨c, cs, hcs, hc⟩
  | cons next items =>
      refine ⟨c, cs ++ ',' :: writeItems (next :: items), ?_, hc⟩
      rw [writeItems_cons_cons, hcs, List.cons_append]

theorem writeMembers_eq_cons (member : JsonString × Json) (members : List (JsonString × Json)) :
    ∃ cs, writeMembers (member :: members) = '"' :: cs := by
  obtain ⟨name, value⟩ := member
  cases members with
  | nil =>
      obtain ⟨cs, hcs, -⟩ := readString_writeString name (':' :: write value)
      exact ⟨cs, hcs⟩
  | cons next members =>
      obtain ⟨cs, hcs, -⟩ :=
        readString_writeString name (':' :: (write value ++ ',' :: writeMembers (next :: members)))
      exact ⟨cs, (writeMembers_cons_cons ..).trans hcs⟩

theorem length_write_pos (j : Json) : 0 < (write j).length := by
  obtain ⟨c, cs, hcs, -⟩ := write_eq_cons j
  rw [hcs]
  exact Nat.zero_lt_succ _

/-! ### Reading what was written -/

mutual

/-- A value is read back. The induction is on the value; the length of its text bounds the fuel that is
used up. -/
theorem readValue_write : ∀ (j : Json) {fuel : Nat} {rest : List Char}, (write j).length < fuel →
    EndsNumber rest → readValue fuel (write j ++ rest) = some (j, rest)
  | .null, fuel + 1, _, _, _ => rfl
  | .bool true, fuel + 1, _, _, _ => rfl
  | .bool false, fuel + 1, _, _, _ => rfl
  | .number n, fuel + 1, rest, _, hrest => by
      obtain ⟨c, cs, hcs, hc⟩ := exists_number_cons n
      have hread := readNumber_writeNumber n hrest
      rw [hcs] at hread
      rw [write, hcs, List.cons_append, readValue_number hc, ← List.cons_append, hread]
      rfl
  | .string s, fuel + 1, rest, _, _ => by
      obtain ⟨cs, hcs, hread⟩ := readString_writeString s rest
      rw [write, hcs, readValue_string, hread]
      rfl
  | .array [], fuel + 1, _, _, _ => rfl
  | .array (item :: items), fuel + 1, rest, hfuel, _ => by
      rw [write, List.length_cons, List.length_append, List.length_singleton] at hfuel
      have hitems : readItems fuel (writeItems (item :: items) ++ ']' :: rest) =
          some (item :: items, rest) :=
        readItems_writeItems (item :: items) (List.cons_ne_nil _ _) (by omega)
      obtain ⟨c, cs, hcs, hblank, hc⟩ := writeItems_eq_cons item items
      rw [hcs, List.cons_append] at hitems
      rw [write, List.cons_append, List.append_assoc, hcs]
      exact readValue_array hblank hc hitems
  | .object [], fuel + 1, _, _, _ => rfl
  | .object (member :: members), fuel + 1, rest, hfuel, _ => by
      rw [write, List.length_cons, List.length_append, List.length_singleton] at hfuel
      have hmembers : readMembers fuel (writeMembers (member :: members) ++ '\x7d' :: rest) =
          some (member :: members, rest) :=
        readMembers_writeMembers (member :: members) (List.cons_ne_nil _ _) (by omega)
      obtain ⟨cs, hcs⟩ := writeMembers_eq_cons member members
      rw [hcs, List.cons_append] at hmembers
      rw [write, List.cons_append, List.append_assoc, hcs]
      exact readValue_object hmembers

/-- Items are read back up to the closing bracket. -/
theorem readItems_writeItems : ∀ (items : List Json), items ≠ [] → ∀ {fuel : Nat} {rest : List Char},
    (writeItems items).length + 1 < fuel →
      readItems fuel (writeItems items ++ ']' :: rest) = some (items, rest)
  | [item], _, fuel + 1, rest, hfuel => by
      rw [writeItems] at hfuel ⊢
      exact readItems_last (readValue_write item (by omega) endsNumber_bracket)
  | item :: next :: items, _, fuel + 1, rest, hfuel => by
      have hpos := length_write_pos item
      rw [writeItems_cons_cons, List.length_append, List.length_cons] at hfuel
      rw [writeItems_cons_cons, List.append_assoc, List.cons_append]
      exact readItems_next (readValue_write item (by omega) endsNumber_comma)
        (readItems_writeItems (next :: items) (List.cons_ne_nil _ _) (by omega))

/-- Members are read back up to the closing brace. -/
theorem readMembers_writeMembers : ∀ (members : List (JsonString × Json)), members ≠ [] →
    ∀ {fuel : Nat} {rest : List Char}, (writeMembers members).length + 1 < fuel →
      readMembers fuel (writeMembers members ++ '\x7d' :: rest) = some (members, rest)
  | [(name, value)], _, fuel + 1, rest, hfuel => by
      rw [writeMembers, List.length_append, List.length_cons] at hfuel
      rw [writeMembers, List.append_assoc]
      obtain ⟨cs, hcs, hname⟩ := readString_writeString name (':' :: write value ++ '\x7d' :: rest)
      rw [hcs]
      exact readMembers_last hname (readValue_write value (by omega) endsNumber_brace)
  | (name, value) :: next :: members, _, fuel + 1, rest, hfuel => by
      rw [writeMembers_cons_cons, List.length_append, List.length_cons, List.length_append,
        List.length_cons] at hfuel
      obtain ⟨cs, hcs, hname⟩ := readString_writeString name
        (':' :: (write value ++ ',' :: (writeMembers (next :: members) ++ '\x7d' :: rest)))
      rw [writeMembers_cons_cons, List.append_assoc, List.cons_append, List.append_assoc,
        List.cons_append, hcs]
      exact readMembers_next hname (readValue_write value (by omega) endsNumber_comma)
        (readMembers_writeMembers (next :: members) (List.cons_ne_nil _ _) (by omega))

end

/-- **A value is read back from its text.** -/
theorem parse?_render (j : Json) : parse? j.render = some j := by
  have hread : readValue (j.write.length + 1) j.write = some (j, []) := by
    have h : readValue (j.write.length + 1) (j.write ++ []) = some (j, []) :=
      readValue_write j (Nat.lt_succ_self _) (by rintro c ⟨⟩)
    rwa [List.append_nil] at h
  simp [parse?, render, hread, skipBlanks]

end Values

end LeastSquares.Json
