import QlikMigration.Json.Access
import QlikMigration.Json.Display
import QlikMigration.Text.Casing
import QlikMigration.Text.Cut

/-!
# Visuals of a report

A dashboard's analysis describes each visual by a type, the data fields it shows
and its colours. Here each description becomes a visual of the report: one of
six kinds, with the fields it shows under each of its roles and the settings of
its kind.

The description is taken as it comes. A type that is not known is drawn as bars,
a field of any kind is shown by its text, and only access that cannot be given a
meaning fails.
-/

namespace QlikMigration

open Json (Value AccessError)

/-- A kind of visual. -/
inductive VisualKind
  | bar | line | pie | table | card | slicer
  deriving DecidableEq, Repr

namespace VisualKind

/-- The names under which a description may give the kind. -/
def names : List (String × VisualKind) :=
  [("bar_chart", bar), ("column_chart", bar), ("clustered_bar", bar),
    ("line_chart", line), ("line", line),
    ("pie_chart", pie), ("pie", pie), ("donut", pie),
    ("table", table), ("matrix", table),
    ("card", card), ("kpi", card),
    ("slicer", slicer), ("filter", slicer)]

/-- A type's name in small letters, with an underscore for each space. -/
def normalName (type : String) : String :=
  String.ofList (Text.replaceChar ' ' ['_'] (Text.lower type.toList))

/-- The kind a type names; what is not known is drawn as bars. -/
def ofType (type : String) : VisualKind :=
  (names.lookup (normalName type)).getD bar

/-- The name of the kind in a report. -/
def reportName : VisualKind → String
  | bar => "clusteredBarChart"
  | line => "lineChart"
  | pie => "pieChart"
  | table => "tableEx"
  | card => "card"
  | slicer => "slicer"

end VisualKind

/-- A visual of the report. -/
structure Visual where
  /-- Its kind. -/
  kind : VisualKind
  /-- The query references shown under each role, roles in order. -/
  projections : List (String × List String)
  /-- The settings of the kind. -/
  settings : Value

/-- Why a description became no visual. -/
inductive VisualError
  /-- The description could not be reached into. -/
  | access (cause : AccessError)
  /-- A visual of no particular kind has no mapping. -/
  | noKind
  deriving DecidableEq, Repr

/-- The wording of an error that has one. -/
def VisualError.message? : VisualError → Option String
  | access _ => none
  | noKind => some "Subclasses must implement map()"

namespace Visual

/-- The query reference of a field: the field of the sample table. -/
def queryRef (field : Value) : String :=
  "Sample." ++ field.display

/-- A projection: the given reference if it is present, otherwise that of the field. -/
def projection (field reference : Value) : Value :=
  .object [("queryRef", if reference.isPresent then reference else .text (queryRef field))]

/-- The projections as a document. -/
def projectionsDocument (visual : Visual) : Value :=
  .object (visual.projections.map fun (role, refs) =>
    (role, .array (refs.map fun ref => .object [("queryRef", .text ref)])))

/-- A single colour as a setting. -/
def solid (color : Value) : Value :=
  .object [("solid", .object [("color", color)])]

/-- The setting that shows a part. -/
def shown : String × Value := ("show", .bool true)

/-- The settings of bars whose colour is given. -/
def barSettings (color : Value) : Value :=
  .object [
    ("dataPoint", .object [("defaultColor", solid color)]),
    ("categoryAxis", .object [shown, ("labelDisplayUnits", .int 0)]),
    ("valueAxis", .object [shown, ("labelDisplayUnits", .int 0)])]

/-- The settings of lines whose colour is given. -/
def lineSettings (color : Value) : Value :=
  .object [
    ("dataPoint", .object [("defaultColor", solid color)]),
    ("categoryAxis", .object [shown]),
    ("valueAxis", .object [shown]),
    ("lineStyles", .object [("strokeWidth", .int 2)])]

/-- The settings of a pie. -/
def pieSettings : Value :=
  .object [
    ("legend", .object [shown, ("position", .text "Right")]),
    ("labels", .object [shown, ("labelStyle", .text "Data")])]

/-- Black, as a setting. -/
def black : Value := solid (.text "#000000")

/-- The settings of a table. -/
def tableSettings : Value :=
  .object [
    ("grid", .object [("gridVertical", .bool true), ("gridHorizontal", .bool true)]),
    ("columnHeaders", .object [("fontColor", black), ("fontSize", .int 11)])]

/-- The settings of a card. -/
def cardSettings : Value :=
  .object [
    ("labels", .object [("fontSize", .int 24), ("fontColor", black)]),
    ("categoryLabels", .object [shown, ("fontSize", .int 12)])]

/-- The settings of a slicer. -/
def slicerSettings : Value :=
  .object [
    ("general", .object [("orientation", .int 1)]),
    ("selection", .object [
      ("selectAllCheckboxEnabled", .bool true), ("singleSelect", .bool false)]),
    ("header", .object [shown, ("fontColor", black)])]

/-- The data fields of a description. -/
def fieldsOf (description : Value) (default : List String) : Except AccessError Value :=
  description.getD "data_fields" (.ofTexts default)

/-- The field at an index, or a default if there are not so many. -/
def fieldAt (fields : Value) (index : Nat) (default : String) : Except AccessError Value := do
  if index < (← fields.size) then fields.at? index else return .text default

/-- The fields after the first, or a default if there is at most one. -/
def fieldsAfter (fields : Value) (default : String) : Except AccessError (List Value) := do
  if 1 < (← fields.size) then fields.rest else return [.text default]

/-- A chart with a category and the values drawn over it, in the first of its colours. -/
def chart (kind : VisualKind) (category : String) (settings : Value → Value)
    (description : Value) : Except AccessError Visual := do
  let fields ← fieldsOf description [category, "Value"]
  let colors ← description.getD "colors" (.ofTexts ["#0078D4"])
  let first ← fieldAt fields 0 category
  let values ← fieldsAfter fields "Value"
  let color ← colors.at? 0
  return {
    kind
    projections := [("Category", [queryRef first]), ("Values", values.map queryRef)]
    settings := settings color }

/-- The visual that a description of a given kind becomes. -/
def ofKind (kind : VisualKind) (description : Value) : Except AccessError Visual :=
  match kind with
  | .bar => chart .bar "Category" barSettings description
  | .line => chart .line "Date" lineSettings description
  | .pie => do
    let fields ← fieldsOf description ["Category", "Value"]
    let category ← fieldAt fields 0 "Category"
    let value ← fieldAt fields 1 "Value"
    return ⟨.pie, [("Category", [queryRef category]), ("Values", [queryRef value])], pieSettings⟩
  | .table => do
    let fields ← fieldsOf description ["Column1", "Column2"]
    return ⟨.table, [("Values", (← fields.elements).map queryRef)], tableSettings⟩
  | .card => do
    let fields ← fieldsOf description ["Value"]
    let value ← fieldAt fields 0 "Value"
    return ⟨.card, [("Values", [queryRef value])], cardSettings⟩
  | .slicer => do
    let field ← description.getD "field" (.text "Category")
    return ⟨.slicer, [("Values", [queryRef field])], slicerSettings⟩

/-- The visual that a description becomes, by its type. -/
def ofDescription (description : Value) : Except AccessError Visual := do
  let type ← (← description.getD "type" (.text "bar_chart")).asText
  ofKind (.ofType type) description

/-- The visual of a kind, if a kind is given: what has no kind has no mapping. -/
def ofKind? (kind : Option VisualKind) (description : Value) : Except VisualError Visual :=
  match kind with
  | some kind => (ofKind kind description).mapError .access
  | none => .error .noKind

end Visual

end QlikMigration
