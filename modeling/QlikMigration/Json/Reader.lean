import QlikMigration.Catalog
import QlikMigration.Json.Value

/-!
# Reading documents

The reader takes standard documents and the three words `NaN`, `Infinity` and
`-Infinity`. A control character inside a text is refused, as is anything but
white space after the value, and so is an escape that is half of a surrogate
pair. If a name comes up twice in an object, its last value counts, at its first
place. A whole number may have any size up to a great many digits. Every step of
the reader uses up characters, so twice the length of the input bounds its depth.
-/

namespace QlikMigration.Json

/-- Why a document cannot be read. -/
inductive ReadError
  /-- The text is not a document. -/
  | malformed
  /-- A whole number has this many digits, which are too many. -/
  | tooManyDigits (count : Nat)
  /-- An escape is half of a pair, for which there is no character. -/
  | unpairedSurrogate
  deriving DecidableEq, Repr

/-- The most digits of a whole number. -/
def mostDigits : Nat := 4300

/-- The wording of a read error. -/
def ReadError.message : ReadError → String
  | malformed => "Failed to parse JSON"
  | tooManyDigits count =>
    "Exceeds the limit (" ++ toString mostDigits ++
      " digits) for integer string conversion: value has " ++ toString count ++
      " digits; use sys.set_int_max_str_digits() to increase the limit"
  | unpairedSurrogate => "Unpaired surrogate"

/-- What follows the white space of a document. -/
def skipSpace (cs : List Char) : List Char :=
  cs.dropWhile fun c => c == ' ' || c == '\t' || c == '\n' || c == '\r'

/-- What follows a word at the start of a text. -/
def afterWord? : List Char → List Char → Option (List Char)
  | [], cs => some cs
  | _ :: _, [] => none
  | w :: ws, c :: cs => if w = c then afterWord? ws cs else none

/-- The value of a hexadecimal digit. -/
def hexValue? (c : Char) : Option Nat :=
  if c.isDigit then some (c.toNat - '0'.toNat)
  else if 'a' ≤ c && c ≤ 'f' then some (c.toNat - 'a'.toNat + 10)
  else if 'A' ≤ c && c ≤ 'F' then some (c.toNat - 'A'.toNat + 10)
  else none

/-- The code unit that four hexadecimal digits give. -/
def hexUnit? (a b c d : Char) : Option Nat := do
  return (((← hexValue? a) * 16 + (← hexValue? b)) * 16 + (← hexValue? c)) * 16 + (← hexValue? d)

/-- The code point of a pair of surrogates, if two units are one. -/
def surrogatePair? (high low : Nat) : Option Nat :=
  if 0xD800 ≤ high && high < 0xDC00 && 0xDC00 ≤ low && low < 0xE000 then
    some (0x10000 + (high - 0xD800) * 0x400 + (low - 0xDC00))
  else
    none

/-- The character that an escape letter stands for. -/
def escaped? : Char → Option Char
  | '"' => some '"'
  | '\\' => some '\\'
  | '/' => some '/'
  | 'b' => some (Char.ofNat 8)
  | 'f' => some (Char.ofNat 12)
  | 'n' => some '\n'
  | 'r' => some '\r'
  | 't' => some '\t'
  | _ => none

/-- The character of a code unit that is not part of a pair. A surrogate is none. -/
def unitChar (unit : Nat) : Except ReadError Char :=
  if 0xD800 ≤ unit && unit < 0xE000 then .error .unpairedSurrogate else .ok (Char.ofNat unit)

/-- Reads a text after its opening quote, with what follows its closing quote. -/
def readText : List Char → Except ReadError (List Char × List Char)
  | [] => .error .malformed
  | '"' :: rest => .ok ([], rest)
  | '\\' :: 'u' :: a :: b :: c :: d :: '\\' :: 'u' :: e :: f :: g :: h :: rest =>
    match hexUnit? a b c d with
    | none => .error .malformed
    | some high =>
      match (hexUnit? e f g h).bind (surrogatePair? high) with
      | some code => (readText rest).map fun (text, tail) => (Char.ofNat code :: text, tail)
      | none =>
        (readText ('\\' :: 'u' :: e :: f :: g :: h :: rest)).bind fun (text, tail) =>
          (unitChar high).map fun char => (char :: text, tail)
  | '\\' :: 'u' :: a :: b :: c :: d :: rest =>
    match hexUnit? a b c d with
    | none => .error .malformed
    | some unit =>
      (readText rest).bind fun (text, tail) =>
        (unitChar unit).map fun char => (char :: text, tail)
  | '\\' :: c :: rest =>
    match escaped? c with
    | none => .error .malformed
    | some char => (readText rest).map fun (text, tail) => (char :: text, tail)
  | c :: rest =>
    if c.toNat < 0x20 || c == '\\' then .error .malformed
    else (readText rest).map fun (text, tail) => (c :: text, tail)

/-- The number that decimal digits give. -/
def natOfDigits (digits : List Char) : Nat :=
  digits.foldl (fun n d => n * 10 + (d.toNat - '0'.toNat)) 0

/-- The floating-point number nearest to `digits * 10 ^ exponent`. Magnitudes far
outside the range of doubles are settled without computing the power. -/
def realOfDecimal (negative : Bool) (digits : Nat) (exponent : Int) : Float :=
  let size := ((Nat.toDigits 10 digits).length : Int) + exponent
  let magnitude :=
    if digits == 0 || size < -400 then 0.0
    else if 400 < size then Float.ofScientific 1 false 999
    else if exponent < 0 then Float.ofScientific digits true exponent.natAbs
    else Float.ofScientific digits false exponent.natAbs
  if negative then -magnitude else magnitude

/-- Reads the fraction of a number: its digits, which may be missing. -/
def readFraction (cs : List Char) : List Char × List Char :=
  match cs with
  | '.' :: rest =>
    let digits := rest.takeWhile Char.isDigit
    if digits.isEmpty then ([], cs) else (digits, rest.dropWhile Char.isDigit)
  | _ => ([], cs)

/-- Reads the exponent of a number, if there is one. -/
def readExponent (cs : List Char) : Option Int × List Char :=
  match cs with
  | mark :: rest =>
    if mark == 'e' || mark == 'E' then
      let (negative, body) := match rest with
        | '-' :: body => (true, body)
        | '+' :: body => (false, body)
        | body => (false, body)
      let digits := body.takeWhile Char.isDigit
      if digits.isEmpty then (none, cs)
      else
        let power : Int := natOfDigits digits
        (some (if negative then -power else power), body.dropWhile Char.isDigit)
    else (none, cs)
  | [] => (none, cs)

/-- Reads the whole digits of a number: a lone zero, or digits that do not start with
zero. -/
def readWhole? (cs : List Char) : Option (List Char × List Char) :=
  match cs with
  | '0' :: rest => some (['0'], rest)
  | _ =>
    let digits := cs.takeWhile Char.isDigit
    if digits.isEmpty then none else some (digits, cs.dropWhile Char.isDigit)

/-- Reads a number. It is whole if it has neither a fraction nor an exponent. -/
def readNumber (cs : List Char) : Except ReadError (Value × List Char) :=
  let (negative, body) := match cs with
    | '-' :: body => (true, body)
    | body => (false, body)
  match readWhole? body with
  | none => .error .malformed
  | some (whole, afterWhole) =>
    let (fraction, afterFraction) := readFraction afterWhole
    let (exponent, rest) := readExponent afterFraction
    if !fraction.isEmpty || exponent.isSome then
      .ok (.real (realOfDecimal negative (natOfDigits (whole ++ fraction))
        (exponent.getD 0 - fraction.length)), rest)
    else if mostDigits < whole.length then .error (.tooManyDigits whole.length)
    else
      let n : Int := natOfDigits whole
      .ok (.int (if negative then -n else n), rest)

/-- Reads a word or a number. -/
def readAtom (cs : List Char) : Except ReadError (Value × List Char) :=
  match afterWord? ['n', 'u', 'l', 'l'] cs with
  | some rest => .ok (.null, rest)
  | none => match afterWord? ['t', 'r', 'u', 'e'] cs with
    | some rest => .ok (.bool true, rest)
    | none => match afterWord? ['f', 'a', 'l', 's', 'e'] cs with
      | some rest => .ok (.bool false, rest)
      | none => match afterWord? ['N', 'a', 'N'] cs with
        | some rest => .ok (.real (0.0 / 0.0), rest)
        | none => match afterWord? ['I', 'n', 'f', 'i', 'n', 'i', 't', 'y'] cs with
          | some rest => .ok (.real (1.0 / 0.0), rest)
          | none => match afterWord? ['-', 'I', 'n', 'f', 'i', 'n', 'i', 't', 'y'] cs with
            | some rest => .ok (.real (-(1.0 / 0.0)), rest)
            | none => readNumber cs

mutual

/-- Reads a value. -/
def readValue : Nat → List Char → Except ReadError (Value × List Char)
  | 0, _ => .error .malformed
  | fuel + 1, cs =>
    match cs with
    | '"' :: rest =>
      (readText rest).map fun (text, tail) => (.text (String.ofList text), tail)
    | '[' :: rest =>
      match skipSpace rest with
      | ']' :: tail => .ok (.array [], tail)
      | body => (readItems fuel body).map fun (items, tail) => (.array items, tail)
    | '{' :: rest =>
      match skipSpace rest with
      | '}' :: tail => .ok (.object [], tail)
      | body =>
        (readMembers fuel body).map fun (members, tail) =>
          (.object (Catalog.ofList members).entries, tail)
    | _ => readAtom cs

/-- Reads the items of an array up to its closing bracket. -/
def readItems : Nat → List Char → Except ReadError (List Value × List Char)
  | 0, _ => .error .malformed
  | fuel + 1, cs =>
    match readValue fuel cs with
    | .error cause => .error cause
    | .ok (item, rest) =>
      match skipSpace rest with
      | ']' :: tail => .ok ([item], tail)
      | ',' :: body =>
        (readItems fuel (skipSpace body)).map fun (items, tail) => (item :: items, tail)
      | _ => .error .malformed

/-- Reads the members of an object up to its closing brace. -/
def readMembers : Nat → List Char → Except ReadError (List (String × Value) × List Char)
  | 0, _ => .error .malformed
  | fuel + 1, cs =>
    match cs with
    | '"' :: afterQuote =>
      match readText afterQuote with
      | .error cause => .error cause
      | .ok (name, afterName) =>
        match skipSpace afterName with
        | ':' :: body =>
          match readValue fuel (skipSpace body) with
          | .error cause => .error cause
          | .ok (value, rest) =>
            match skipSpace rest with
            | '}' :: tail => .ok ([(String.ofList name, value)], tail)
            | ',' :: more =>
              (readMembers fuel (skipSpace more)).map fun (members, tail) =>
                ((String.ofList name, value) :: members, tail)
            | _ => .error .malformed
        | _ => .error .malformed
    | _ => .error .malformed

end

/-- Reads a whole document. -/
def read (text : List Char) : Except ReadError Value :=
  match readValue (2 * text.length + 2) (skipSpace text) with
  | .ok (value, rest) => if (skipSpace rest).isEmpty then .ok value else .error .malformed
  | .error cause => .error cause

end QlikMigration.Json
