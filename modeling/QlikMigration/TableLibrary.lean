import QlikMigration.Decimal.FloatStyle

/-!
# Table files

Table files are read and written by a library that the program does not contain.
What the library makes of the bytes of a file is up to it: a table with named
columns and labelled rows, or an error. Nothing is assumed about it here; where
a result depends on how it labels the rows, that is a hypothesis.
-/

namespace QlikMigration

/-- An error of the library: its class and its wording. -/
structure TableError where
  kind : String
  message : String
  deriving DecidableEq, Repr

/-- A number that a row is known by. -/
inductive RowNumber
  | whole (value : Int)
  | real (value : Float)

namespace RowNumber

/-- The number some rows further. -/
def plus (count : Nat) : RowNumber → RowNumber
  | whole n => whole (n + count)
  | real x => real (x + count.toFloat)

/-- The number as text. -/
def text : RowNumber → String
  | whole n => toString n
  | real x => Decimal.FloatStyle.plain.write x

end RowNumber

/-- A value as part of a row. -/
structure DataCell where
  /-- Whether the value counts as missing. -/
  missing : Bool
  /-- The value as text. -/
  text : String
  /-- The name of its type; a text is of type `str`. -/
  kind : String
  /-- The value as a field of a file. -/
  field : String

/-- A row of a table. -/
structure DataRow where
  /-- The number that labels the row, or the error that comes of adding to its label. -/
  label : Except TableError RowNumber
  /-- The value in a column of the table. -/
  cell : String → DataCell
  /-- The values as their columns have them, as fields of a file. -/
  fields : List String

/-- A table: the names of its columns, and its rows in order. -/
structure DataTable where
  names : List String
  rows : List DataRow

/-- A library for table files. -/
structure TableLibrary where
  /-- The table in a file. -/
  read : ByteArray → Except TableError DataTable
  /-- A file with the given column names and rows of fields. -/
  write : List String → List (List String) → String

end QlikMigration
