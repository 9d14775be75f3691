import QlikMigration.Csv.Frame

/-!
# Writing table files

Each record is a line that ends in a line feed. A field with a comma, a double
quote or a line end of either kind is written in double quotes, with its quotes
doubled. A missing value is written as nothing. A table without columns is one
empty line.
-/

namespace QlikMigration.Csv

/-- A field as it is written. -/
def writeField (field : String) : String :=
  let cs := field.toList
  if cs.any fun c => c == ',' || c == '"' || c == '\n' || c == '\r' then
    String.ofList ('"' :: (cs.flatMap fun c => if c == '"' then ['"', '"'] else [c]) ++ ['"'])
  else field

/-- A record as it is written. A lone empty field is written as two quotes. -/
def writeRecord (fields : List String) : String :=
  match fields with
  | [""] => "\"\"\n"
  | _ => ",".intercalate (fields.map writeField) ++ "\n"

/-- The text of a cell in a file. -/
def Cell.field : Cell → String
  | .missing => ""
  | .real x => if x.isNaN then "" else (Cell.real x).display
  | cell => cell.display

/-- A file with the given header and rows. -/
def writeTable (header : List String) (rows : List (List String)) : String :=
  "".intercalate (writeRecord header :: rows.map writeRecord)

end QlikMigration.Csv
