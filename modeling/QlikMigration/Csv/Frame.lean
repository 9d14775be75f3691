import QlikMigration.Csv.Column
import QlikMigration.Csv.Record
import QlikMigration.TableLibrary

/-!
# Table frames

A frame is a table file with named and typed columns. An empty header becomes
`Unnamed` with its position, and a repeated one gets a number. If the first row
is longer than the header, the surplus columns at the left name the rows.

A row is seen through its columns together: where all columns are numbers of
different types, the whole row is one of floating-point numbers.
-/

namespace QlikMigration.Csv

/-- A frame. The index columns name the rows; there are usually none. -/
structure Frame where
  names : List String
  columns : List TypedColumn
  index : List TypedColumn
  height : Nat
  deriving Repr

/-- The header names, where an empty one is named by its position. -/
def placeholderNames (position : Nat) : List String → List String
  | [] => []
  | name :: names =>
    (if name == "" then "Unnamed: " ++ toString position else name) ::
      placeholderNames (position + 1) names

/-- The counts of names given so far. -/
abbrev NameCounts := List (String × Nat)

/-- How often a name was given. -/
def countOf (counts : NameCounts) (name : String) : Nat :=
  ((counts.find? fun entry => entry.1 == name).map Prod.snd).getD 0

/-- Records how often a name was given. -/
def setCount (counts : NameCounts) (name : String) (count : Nat) : NameCounts :=
  (name, count) :: counts

/-- Finds a free form of a repeated name: the name with the next number, unless a
header already has that form. The bound is on the numbers tried. -/
def freeName (header : List String) (name : String) :
    Nat → Nat → NameCounts → String × Nat × NameCounts
  | 0, count, counts => (name, count, counts)
  | tries + 1, count, counts =>
    let counts := setCount counts name (count + 1)
    let candidate := name ++ "." ++ toString count
    if header.contains candidate then freeName header name tries (count + 1) counts
    else
      let given := countOf counts candidate
      if given == 0 then (candidate, 0, counts) else freeName header name tries given counts

/-- Gives the header at a position its final name. -/
def settleName (state : List String × NameCounts) (position : Nat) : List String × NameCounts :=
  let (header, counts) := state
  match header[position]? with
  | none => state
  | some name =>
    let count := countOf counts name
    let (settled, count, counts) :=
      if count == 0 then (name, 0, counts)
      else freeName header name (2 * header.length + 2) count counts
    (header.set position settled, setCount counts settled (count + 1))

/-- The final column names of a header: given names are settled before empty ones. -/
def columnNames (header : List String) : List String :=
  let positions := List.range header.length
  let isEmpty (position : Nat) : Bool := header[position]? == some ""
  let order := positions.filter (fun p => !isEmpty p) ++ positions.filter isEmpty
  (order.foldl settleName (placeholderNames 0 header, [])).1

/-- The fields of a column. -/
def columnFields (rows : List (List String)) (position : Nat) : List String :=
  rows.map fun row => row[position]?.getD ""

/-- The frame of a sheet. -/
def Frame.ofSheet (sheet : Sheet) : Frame :=
  let width := sheet.header.length
  let surplus := (sheet.rows.head?.map List.length).getD width - width
  { names := columnNames sheet.header
    columns := (List.range width).map fun position =>
      inferColumn (columnFields sheet.rows (surplus + position))
    index := (List.range surplus).map fun position =>
      inferColumn (columnFields sheet.rows position)
    height := sheet.rows.length }

/-- Reads a frame. -/
def readFrame (cs : List Char) : Except CsvError Frame :=
  (readSheet cs).map Frame.ofSheet

namespace Frame

/-- The type that all columns of a frame share as a row: none if they are not all
numbers or all truth values. -/
def rowType? (frame : Frame) : Option ColumnType :=
  let types := frame.columns.map TypedColumn.type
  let numeric (type : ColumnType) : Bool := type == .int || type == .unsigned || type == .real
  match types with
  | [] => none
  | type :: rest =>
    if rest.all (· == type) then if type == .text then none else some type
    else if types.all numeric then some .real
    else none

/-- A cell as part of a row of the given type. -/
def rowCell (type? : Option ColumnType) (cell : Cell) : Cell :=
  match type?, cell with
  | some .real, .int n => .real (.ofInt n)
  | _, cell => cell

/-- The cell of a column in a row, as part of the row. -/
def cell? (frame : Frame) (name : String) (row : Nat) : Option Cell := do
  let position ← frame.names.findIdx? (· == name)
  let column ← frame.columns[position]?
  let cell ← column.cells[row]?
  return rowCell frame.rowType? cell

/-- The cells that name a row. -/
def indexCells (frame : Frame) (row : Nat) : List Cell :=
  frame.index.filterMap fun column => column.cells[row]?

/-- The number of a row: its position, unless an index column names it. A text or several
cells are no number. -/
def rowLabel (frame : Frame) (row : Nat) : Except TableError RowNumber :=
  match frame.indexCells row with
  | [] => .ok (.whole row)
  | [.int n] => .ok (.whole n)
  | [.real x] => .ok (.real x)
  | [.bool b] => .ok (.whole (if b then 1 else 0))
  | [.missing] => .ok (.real (0.0 / 0.0))
  | [.text _] => .error ⟨"TypeError", "can only concatenate str (not \"int\") to str"⟩
  | _ => .error ⟨"TypeError", "can only concatenate tuple (not \"int\") to tuple"⟩

end Frame

end QlikMigration.Csv
