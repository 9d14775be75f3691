/-!
# Records of a table file

A table file is a sequence of records, one a line, whose fields are separated by
commas. A field that begins with a double quote runs to the closing quote; it
may hold commas and line ends, and a doubled quote inside stands for one. What
follows the closing quote up to the comma belongs to the field as it is. A zero
character ends the text of a field, though not the field. Lines that are empty
or hold only spaces and tabulators are no records, but they count as lines.

The first record is the header. A record that is shorter than the one before it
is filled up with empty fields. The record after the header may be longer than
the header; any later record that is longer than the one before it is an error.
-/

namespace QlikMigration.Csv

/-- Why a table file cannot be read. -/
inductive CsvError
  /-- There is no record at all. -/
  | empty
  /-- A record has more fields than the one before it. -/
  | tooManyFields (expected line seen : Nat)
  /-- The file ends inside quotes that opened after the given number of lines. -/
  | openQuote (lines : Nat)
  deriving DecidableEq, Repr

/-- The wording of an error. -/
def CsvError.message : CsvError → String
  | empty => "No columns to parse from file"
  | tooManyFields expected line seen =>
    "Error tokenizing data. C error: Expected " ++ toString expected ++ " fields in line " ++
      toString line ++ ", saw " ++ toString seen ++ "\n"
  | openQuote lines =>
    "Error tokenizing data. C error: EOF inside string starting at row " ++ toString lines

/-- The class of an error. -/
def CsvError.kind : CsvError → String
  | empty => "EmptyDataError"
  | tooManyFields .. | openQuote _ => "ParserError"

/-- A record with the number of the line it ends, counted without the line ends inside
quotes. -/
structure Record where
  line : Nat
  fields : List String
  deriving DecidableEq, Repr

/-- Where a scan stands. -/
inductive Mode
  | recordStart
  /-- Only spaces and tabulators so far; the field holds them. -/
  | blankStart
  | fieldStart
  | inField
  | inQuotes
  /-- Behind a quote inside quotes, which may close the field or be doubled. -/
  | afterQuote
  /-- Behind a carriage return that ended a line. -/
  | afterReturn
  deriving DecidableEq, Repr

/-- The state of a scan. What is collected stands latest first. -/
structure Scan where
  records : List Record
  lines : Nat
  fields : List String
  field : List Char
  mode : Mode
  deriving DecidableEq, Repr

namespace Scan

/-- A scan at the start of a file. -/
def start : Scan := ⟨[], 0, [], [], .recordStart⟩

/-- Ends the current field and goes on in a mode. -/
def endField (scan : Scan) (mode : Mode) : Scan :=
  { scan with
    fields := String.ofList (scan.field.reverse.takeWhile (· != '\x00')) :: scan.fields
    field := []
    mode := mode }

/-- Ends the current field and record and goes on in a mode. -/
def endRecord (scan : Scan) (mode : Mode) : Scan :=
  let ended := scan.endField mode
  { ended with
    records := ⟨scan.lines + 1, ended.fields.reverse⟩ :: ended.records
    lines := scan.lines + 1
    fields := [] }

/-- Passes over a line without a record. -/
def skipLine (scan : Scan) (mode : Mode) : Scan :=
  { scan with lines := scan.lines + 1, field := [], mode := mode }

/-- Adds a character to the current field. -/
def push (scan : Scan) (c : Char) (mode : Mode) : Scan :=
  { scan with field := c :: scan.field, mode := mode }

/-- The step on a character outside of quotes. -/
def plain (scan : Scan) (c : Char) : Scan :=
  if c == '\n' then scan.endRecord .recordStart
  else if c == '\r' then scan.endRecord .afterReturn
  else if c == ',' then scan.endField .fieldStart
  else scan.push c .inField

/-- The step on a character at the start of a field. -/
def atField (scan : Scan) (c : Char) : Scan :=
  if c == '"' then { scan with mode := .inQuotes } else scan.plain c

/-- The step on a character at the start of a record. -/
def atRecord (scan : Scan) (c : Char) : Scan :=
  if c == '\n' then scan.skipLine .recordStart
  else if c == '\r' then scan.skipLine .afterReturn
  else if c == ' ' || c == '\t' then scan.push c .blankStart
  else scan.atField c

/-- The step on a character. -/
def step (scan : Scan) (c : Char) : Scan :=
  match scan.mode with
  | .recordStart => scan.atRecord c
  | .blankStart =>
    if c == '\n' then scan.skipLine .recordStart
    else if c == '\r' then scan.skipLine .afterReturn
    else if c == ' ' || c == '\t' then scan.push c .blankStart
    else scan.plain c
  | .fieldStart => scan.atField c
  | .inField => scan.plain c
  | .inQuotes =>
    if c == '"' then { scan with mode := .afterQuote } else scan.push c .inQuotes
  | .afterQuote => if c == '"' then scan.push c .inQuotes else scan.plain c
  | .afterReturn =>
    if c == '\n' then { scan with mode := .recordStart } else scan.atRecord c

/-- The state at the end of a file, where an unfinished record is ended. -/
def finish (scan : Scan) : Scan :=
  match scan.mode with
  | .fieldStart | .inField | .afterQuote => scan.endRecord .recordStart
  | _ => scan

end Scan

/-- Fills up records after the header, where `width` is that of the record before and
`first` says whether the next record is the one after the header. -/
def alignRecords (width : Nat) (first : Bool) : List Record → Except CsvError (List (List String))
  | [] => .ok []
  | record :: rest =>
    let seen := record.fields.length
    if !first && width < seen then .error (.tooManyFields width record.line seen)
    else
      let fields := record.fields ++ List.replicate (width - seen) ""
      (alignRecords fields.length false rest).map (fields :: ·)

/-- The header of a file and the records after it. -/
structure Sheet where
  header : List String
  rows : List (List String)
  deriving DecidableEq, Repr

/-- Reads the records of a file. A byte order mark at its start is dropped. -/
def readSheet (cs : List Char) : Except CsvError Sheet := do
  let body := match cs with
    | c :: rest => if c.toNat == 0xFEFF then rest else cs
    | [] => []
  let scan := (body.foldl Scan.step Scan.start).finish
  match scan.records.reverse with
  | [] => if scan.mode == .inQuotes then .error (.openQuote scan.lines) else .error .empty
  | header :: records =>
    let rows ← alignRecords header.fields.length true records
    if scan.mode == .inQuotes then .error (.openQuote scan.lines)
    else return ⟨header.fields, rows⟩

end QlikMigration.Csv
