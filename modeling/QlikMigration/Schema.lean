import QlikMigration.Catalog
import QlikMigration.Model.Basic
import QlikMigration.TableLibrary
import QlikMigration.Text.Blank
import QlikMigration.Text.Cut

/-!
# Schemas

A schema says for each field which table it belongs to and of which type it is.
It is loaded from a table file with exactly the columns `table`, `field` and
`type`. Loading forgets the schema that was there before. All rows are checked
for missing values first; then they are taken in one by one, and a field that
comes up again in the table of its last row is an error. The fields taken in
before such an error stay.
-/

namespace QlikMigration

/-- What a schema says about a field. -/
structure FieldEntry where
  table : String
  type : String
  deriving DecidableEq, Repr

/-- The fields of a schema in the order of their first row. -/
abbrev Schema := Catalog FieldEntry

/-- A row of a schema file: its number and its three values, where a missing value is
none. -/
structure SchemaRow where
  number : String
  table : Option String
  field : Option String
  type : Option String
  deriving DecidableEq, Repr

/-- Why a schema file is not accepted. -/
inductive SchemaError
  /-- The file holds no table, or a row has no number. -/
  | library (cause : TableError)
  | missingColumns (names : List String)
  /-- There are surplus columns without a name. -/
  | unnamedColumns (count : Nat)
  /-- There are surplus columns, all with names. -/
  | extraColumns (count : Nat) (names : List String)
  | missingValue (row column : String)
  | duplicateField (field table firstRow row : String)
  deriving DecidableEq, Repr

/-- The wording of a schema error. -/
def SchemaError.message : SchemaError → String
  | library cause => cause.message
  | missingColumns names =>
    "CSV must have columns: table, field, type. Missing: " ++ ", ".intercalate names
  | unnamedColumns count =>
    "Malformed CSV: found " ++ toString count ++ " columns, expected 3. This is likely caused " ++
      "by trailing commas at the end of lines. Remove any extra commas."
  | extraColumns count names =>
    "Malformed CSV: found " ++ toString count ++ " columns, expected 3. Extra columns: " ++
      ", ".intercalate names
  | missingValue row column => "Row " ++ row ++ ": Missing value in '" ++ column ++ "' column"
  | duplicateField field table firstRow row =>
    "Duplicate field detected: '" ++ field ++ "' already exists in table '" ++ table ++
      "' (first defined in row " ++ firstRow ++ ", duplicate in row " ++ row ++ ")"

namespace Schema

/-- The columns of a schema file. -/
def requiredColumns : List String :=
  ["table", "field", "type"]

/-- Checks that the columns are the required ones. -/
def checkColumns (names : List String) : Except SchemaError Unit :=
  let missing := requiredColumns.filter fun name => !names.contains name
  if !missing.isEmpty then .error (.missingColumns missing)
  else if 3 < names.length then
    let extra := names.filter fun name => !requiredColumns.contains name
    if extra.any fun name => "Unnamed:".toList.isPrefixOf name.toList then
      .error (.unnamedColumns names.length)
    else .error (.extraColumns names.length extra)
  else .ok ()

/-- A text without white space around it. -/
def trimmed (text : String) : String :=
  String.ofList (Text.trim text.toList)

/-- The trimmed text of a cell that is present and not blank. -/
def cellText? (cell : DataCell) : Option String :=
  let text := trimmed cell.text
  if cell.missing || text == "" then none else some text

/-- A row of a table. Its number is that of its line, if the table is labelled from zero on. -/
def rowOf (row : DataRow) : Except SchemaError SchemaRow := do
  let number ← row.label.mapError SchemaError.library
  return {
    number := (number.plus 2).text
    table := cellText? (row.cell "table")
    field := cellText? (row.cell "field")
    type := cellText? (row.cell "type") }

/-- A row whose three values are present. -/
structure Entry where
  number : String
  table : String
  field : String
  type : String
  deriving DecidableEq, Repr

/-- The entry of a row, unless a value is missing: the first missing one is reported. -/
def entryOf (row : SchemaRow) : Except SchemaError Entry :=
  match row.table, row.field, row.type with
  | none, _, _ => .error (.missingValue row.number "table")
  | _, none, _ => .error (.missingValue row.number "field")
  | _, _, none => .error (.missingValue row.number "type")
  | some table, some field, some type => .ok ⟨row.number, table, field, type⟩

/-- The table and the row number at which each field was last seen. -/
abbrev Seen := Catalog (String × String)

/-- Takes in entries one by one. The schema holds what was taken in, also after an
error. -/
def fill (schema : Schema) (seen : Seen) : List Entry → Except SchemaError Unit × Schema
  | [] => (.ok (), schema)
  | entry :: rest =>
    match seen.get? entry.field with
    | some (table, row) =>
      if table = entry.table then
        (.error (.duplicateField entry.field table row entry.number), schema)
      else
        fill (schema.put entry.field ⟨entry.table, entry.type⟩)
          (seen.put entry.field (entry.table, entry.number)) rest
    | none =>
      fill (schema.put entry.field ⟨entry.table, entry.type⟩)
        (seen.put entry.field (entry.table, entry.number)) rest

/-- Loads entries: how many there are, or why they are not accepted, and the schema. -/
def loadEntries (entries : List Entry) : Except SchemaError Nat × Schema :=
  let (outcome, schema) := fill ∅ ∅ entries
  (outcome.map fun _ => entries.length, schema)

/-- Reads the entries of a schema file. -/
def readEntries (library : TableLibrary) (file : ByteArray) :
    Except SchemaError (List Entry) := do
  let table ← (library.read file).mapError SchemaError.library
  checkColumns table.names
  table.rows.mapM fun row => do entryOf (← rowOf row)

/-- Loads a schema file: the number of its rows, or why it is not accepted, and the
schema that is there afterwards. -/
def load (library : TableLibrary) (file : ByteArray) : Except SchemaError Nat × Schema :=
  match readEntries library file with
  | .error cause => (.error cause, ∅)
  | .ok entries => loadEntries entries

/-- The table of a field. -/
def tableOf? (schema : Schema) (field : String) : Option String :=
  (schema.get? field).map FieldEntry.table

/-- The tables that some field belongs to, sorted. -/
def tables (schema : Schema) : List String :=
  sortedNames (schema.entries.map fun entry => entry.2.table)

end Schema

end QlikMigration
