import QlikMigration.Decimal.FloatStyle

/-!
# Columns of a table file

The fields of a column decide its type together. Empty fields and the usual
words for a missing value count as missing and fit every type. If all others are
whole numbers, the column is one of whole numbers; if they are numbers, one of
floating-point numbers; if they are truth values, one of truth values; otherwise
it is text and its fields stay as they are. Whole numbers with missing values
among them become floating-point numbers, and the least whole number then counts
as missing itself.

The fields are read from the first on, and digits at the start of a field that
are too large for 64 bits make the column text at once, whatever follows them,
unless a field before has already ruled whole numbers out. A number that needs
the sign bit does so only next to a number with a minus sign or a missing field;
in that case the words for missing values are text like any other.
-/

namespace QlikMigration.Csv

/-- A value in a table. -/
inductive Cell
  | missing
  | int (value : Int)
  | real (value : Float)
  | bool (value : Bool)
  | text (value : String)
  deriving Repr

/-- The type of a column. Whole numbers that need the sign bit are apart. -/
inductive ColumnType
  | int
  | unsigned
  | real
  | bool
  | text
  deriving DecidableEq, Repr

/-- A column with its type. -/
structure TypedColumn where
  type : ColumnType
  cells : List Cell
  deriving Repr

/-- The words for a missing value. -/
def missingWords : List String :=
  ["", "#N/A", "N/A", "NA", "NULL", "null", "NaN", "nan", "None", "n/a", "<NA>", "#N/A N/A",
   "#NA", "-1.#IND", "-1.#QNAN", "-NaN", "-nan", "1.#IND", "1.#QNAN"]

/-- Whether a field is missing. White space around it is not taken off. -/
def isMissing (field : String) : Bool :=
  missingWords.contains field

/-- Whether a character is white space around a number. -/
def isPadding (c : Char) : Bool :=
  c == ' ' || (9 ≤ c.toNat && c.toNat ≤ 13)

/-- The sign of a number and what follows it. -/
def splitSign (cs : List Char) : Bool × List Char :=
  match cs with
  | '-' :: rest => (true, rest)
  | '+' :: rest => (false, rest)
  | rest => (false, rest)

/-- Whether a field begins with a minus sign. -/
def isSigned (field : String) : Bool :=
  (splitSign (field.toList.dropWhile isPadding)).1

/-- The whole number that digits stand for. -/
def digitsValue (digits : List Char) : Int :=
  digits.foldl (fun n d => n * 10 + (d.toNat - '0'.toNat)) 0

/-- Reads the whole number of any size that a field begins with, and what follows it. -/
def readWhole? (field : String) : Option (Int × List Char) :=
  let (negative, body) := splitSign (field.toList.dropWhile isPadding)
  let digits := body.takeWhile Char.isDigit
  if digits.isEmpty then none
  else
    let n := digitsValue digits
    some (if negative then -n else n, body.dropWhile Char.isDigit)

/-- Reads a field that is a whole number of any size. -/
def readInt? (field : String) : Option Int :=
  match readWhole? field with
  | some (n, rest) => if rest.all isPadding then some n else none
  | none => none

/-- A number of ten digits more, the next digit behind. -/
def pushDigit (x : Float) (d : Char) : Float :=
  x * 10.0 + (d.toNat - '0'.toNat).toFloat

/-- The power of ten with the given exponent. -/
def tenTo (n : Nat) : Float :=
  Float.ofScientific 1 false n

/-- A number times a power of ten, in one step, or in two below the range of powers.
Nothing comes of an exponent above that range, and one that two steps do not reach
gives zero without a sign. -/
def scaleByTen? (x : Float) (exponent : Int) : Option Float :=
  if 308 < exponent then none
  else if 0 < exponent then
    let scaled := x * tenTo exponent.toNat
    if scaled.isInf then none else some scaled
  else if exponent < -616 then some 0.0
  else if exponent < -308 then some (x / tenTo ((-308 - exponent).toNat) / tenTo 308)
  else some (x / tenTo (-exponent).toNat)

/-- Reads the exponent of a number, which counts only if it has digits. At most
seventeen digits belong to it. -/
def readPower (cs : List Char) : Int × List Char :=
  match cs with
  | mark :: rest =>
    if mark == 'e' || mark == 'E' then
      let (negative, body) := splitSign rest
      let digits := (body.takeWhile Char.isDigit).take 17
      if digits.isEmpty then (0, cs)
      else
        let n := digitsValue digits
        (if negative then -n else n, body.drop digits.length)
    else (0, cs)
  | [] => (0, [])

/-- The words for an infinite number, in lower case. -/
def infinityOf? (field : String) : Option Float :=
  let word := String.ofList (field.toList.map Char.toLower)
  if ["inf", "+inf", "infinity", "+infinity"].contains word then some (1.0 / 0.0)
  else if ["-inf", "-infinity"].contains word then some (-(1.0 / 0.0))
  else none

/-- Reads a decimal number. Seventeen digits are used; further ones before the point
only count for the size. The exponent is kept in 32 bits. -/
def readDecimal? (field : String) : Option Float :=
  let (negative, body) := splitSign (field.toList.dropWhile isPadding)
  let whole := body.takeWhile Char.isDigit
  let afterWhole := body.dropWhile Char.isDigit
  let (fraction, afterFraction) := match afterWhole with
    | '.' :: rest => (rest.takeWhile Char.isDigit, rest.dropWhile Char.isDigit)
    | rest => ([], rest)
  if whole.isEmpty && fraction.isEmpty then none
  else
    let usedFraction := fraction.take (17 - whole.length)
    let magnitude := ((whole.take 17) ++ usedFraction).foldl pushDigit 0.0
    let (power, rest) := readPower afterFraction
    let exponent : Int :=
      Int.bmod ((whole.length - 17 : Nat) - (usedFraction.length : Int) + power) 4294967296
    if rest.all isPadding then scaleByTen? (if negative then -magnitude else magnitude) exponent
    else none

/-- Reads a floating-point number. -/
def readReal? (field : String) : Option Float :=
  (readDecimal? field).or (infinityOf? field)

/-- Reads a truth value, in any case. -/
def readBool? (field : String) : Option Bool :=
  match String.ofList (field.toList.map Char.toLower) with
  | "true" => some true
  | "false" => some false
  | _ => none

/-- What the fields of a column say about whole numbers: the first field that is none
or begins with one that is too large decides. -/
inductive IntScan
  | fits
  | notWhole
  | tooLarge
  deriving DecidableEq, Repr

/-- Scans present fields for whole numbers between two bounds. -/
def scanInts (least greatest : Int) : List String → IntScan
  | [] => .fits
  | field :: rest =>
    match readWhole? field with
    | none => .notWhole
    | some (n, after) =>
      if n < least || greatest < n then .tooLarge
      else if after.all isPadding then scanInts least greatest rest
      else .notWhole

/-- Cells of present fields by a reader; missing fields stay missing. -/
def readCells (read : String → Cell) (fields : List String) : List Cell :=
  fields.map fun field => if isMissing field then .missing else read field

/-- A column of text. -/
def textColumn (fields : List String) : TypedColumn :=
  ⟨.text, readCells .text fields⟩

/-- The least whole number of a column. -/
def leastInt : Int := -9223372036854775808

/-- The greatest whole number of a column with negative numbers. -/
def greatestInt : Int := 9223372036854775807

/-- The greatest whole number of a column without negative numbers. -/
def greatestUnsigned : Int := 18446744073709551615

/-- A column of text in which no word stands for a missing value. -/
def literalColumn (fields : List String) : TypedColumn :=
  ⟨.text, fields.map .text⟩

/-- A whole number as a floating-point number beside missing values, where the least one
counts as missing. -/
def intBesideMissing (n : Int) : Cell :=
  if n = leastInt then .missing else .real (.ofInt n)

/-- A column of whole numbers, or of floating-point numbers if some are missing. -/
def intColumn (type : ColumnType) (fields : List String) : TypedColumn :=
  if fields.any isMissing then
    ⟨.real, readCells (fun field => intBesideMissing ((readInt? field).getD 0)) fields⟩
  else
    ⟨type, readCells (fun field => .int ((readInt? field).getD 0)) fields⟩

/-- A column that has no whole-number type: floating-point numbers, truth values or
text. Truth values with missing ones among them are text to the eye of a row. -/
def otherColumn (fields : List String) : TypedColumn :=
  let present := fields.filter fun field => !isMissing field
  if present.all fun field => (readReal? field).isSome then
    ⟨.real, readCells (fun field => .real ((readReal? field).getD 0.0)) fields⟩
  else if present.all fun field => (readBool? field).isSome then
    ⟨if fields.any isMissing then .text else .bool,
      readCells (fun field => .bool ((readBool? field).getD false)) fields⟩
  else textColumn fields

/-- The column of a list of fields. -/
def inferColumn (fields : List String) : TypedColumn :=
  let present := fields.filter fun field => !isMissing field
  match scanInts leastInt greatestInt present with
  | .fits => intColumn .int fields
  | .notWhole => otherColumn fields
  | .tooLarge =>
    let unsigned := present.filter fun field => !isSigned field
    match scanInts 0 greatestUnsigned unsigned with
    | .fits =>
      if scanInts leastInt greatestInt unsigned = .fits then textColumn fields
      else if fields.any isMissing || present.any isSigned then literalColumn fields
      else intColumn .unsigned fields
    | .notWhole => otherColumn fields
    | .tooLarge => textColumn fields

/-- The text of a cell. -/
def Cell.display : Cell → String
  | missing => "nan"
  | int n => toString n
  | real x => Decimal.FloatStyle.plain.write x
  | bool true => "True"
  | bool false => "False"
  | text s => s

end QlikMigration.Csv
