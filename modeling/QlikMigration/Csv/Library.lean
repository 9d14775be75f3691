import QlikMigration.Csv.Writer

/-!
# A library for table files

The tables of files with comma-separated values. The program does not depend on
this library: it is one to run the program with.
-/

namespace QlikMigration.Csv

/-- The word for the type of a cell in a row whose cells share a type, or do not. -/
def Cell.kind (type? : Option ColumnType) (cell : Cell) : String :=
  match type?, cell with
  | some .int, _ => "numpy.int64"
  | some .unsigned, _ => "numpy.uint64"
  | some .real, _ => "numpy.float64"
  | some .bool, _ => "numpy.bool_"
  | _, .int _ => "int"
  | _, .bool _ => "bool"
  | _, .text _ => "str"
  | _, _ => "float"

/-- A cell as part of a row. -/
def Cell.delivered (type? : Option ColumnType) (cell : Cell) : DataCell where
  missing := cell matches .missing
  text := cell.display
  kind := cell.kind type?
  field := cell.field

/-- A frame as a table. -/
def Frame.table (frame : Frame) : DataTable where
  names := frame.names
  rows := (List.range frame.height).map fun row => {
    label := frame.rowLabel row
    cell := fun name => ((frame.cell? name row).getD .missing).delivered frame.rowType?
    fields := frame.columns.map fun column => (column.cells[row]?.getD .missing).field }

/-- The library for such files, which have to be UTF-8. -/
def library : TableLibrary where
  read file :=
    match String.fromUTF8? file with
    | none => .error ⟨"UnicodeDecodeError", "invalid UTF-8"⟩
    | some text =>
      match readFrame text.toList with
      | .ok frame => .ok frame.table
      | .error cause => .error ⟨cause.kind, cause.message⟩
  write := writeTable

end QlikMigration.Csv
