import QlikMigration.Dax
import QlikMigration.Decimal.Exact
import QlikMigration.Page.Element

/-!
# The tabs on measures

Three tabs: one loads the schema, one converts a formula, and one converts a
table of formulas. The last two ask for a schema first. A formula that cannot be
converted is reported in its place and does not stop the others; a row that has
no number stops the table.
-/

namespace QlikMigration.Page

open Fragment (element say session updateSession directory attempt button uploader)

/-- The tab that loads a schema. -/
def schemaTab : List String := ["📋 Validate Schema"]

/-- The tab that converts a formula. -/
def formulaTab : List String := ["🔄 Single Convert"]

/-- The tab that converts a table of formulas. -/
def batchTab : List String := ["📦 Batch Convert"]

/-- Where an uploaded schema is kept. -/
def schemaFile : String := "data/temp_schema.csv"

/-- Loads an uploaded schema. -/
def loadSchema (library : TableLibrary) (file : ByteArray) : Fragment Unit := do
  let saved : Effect FileError Unit := Effect.change id (·.writeName schemaFile (.bytes file))
  match ← attempt saved with
  | .error cause => say schemaTab "error" ("Error loading schema: " ++ cause.message)
  | .ok () =>
    let (outcome, schema) := Schema.load library file
    updateSession fun session => { session with schema }
    match outcome with
    | .error cause => say schemaTab "error" ("Error loading schema: " ++ cause.message)
    | .ok count =>
      updateSession fun session => { session with schemaLoaded := true }
      say schemaTab "success" ("Schema loaded! Found " ++ toString count ++ " fields")
      say schemaTab "write" ("**Tables found:** " ++ ", ".intercalate (Schema.tables schema))

/-- Shows the tab that loads a schema. -/
def showSchemaTab (library : TableLibrary) (entries : Entries) : Fragment Unit := do
  say schemaTab "header" "Step 1: Validate Data Model"
  say schemaTab "write" "Upload a CSV file with your table and field definitions"
  uploader schemaTab "Upload Schema CSV" "schema" ["csv"] []
  match entries.schema with
  | some file => loadSchema library file
  | none => return

/-- Asks for a schema. -/
def askForSchema (container : List String) : Fragment Unit :=
  say container "warning" "Please upload schema in the Validate tab first!"

/-- Converts the formula in the text area. -/
def convertFormula (entries : Entries) : Fragment Unit := do
  if entries.formula == "" then say formulaTab "warning" "Please enter a Qlik formula"
  else
    match Dax.convert (← session).schema entries.formula with
    | .ok measure =>
      say formulaTab "success" "Conversion successful!"
      element formulaTab "code" [.text measure] [("language", .text "dax")]
    | .error cause => say formulaTab "error" ("Conversion failed: " ++ cause.message)

/-- Shows the tab that converts a formula. -/
def showFormulaTab (entries : Entries) : Fragment Unit := do
  say formulaTab "header" "Step 2: Single Convert"
  if !(← session).schemaLoaded then askForSchema formulaTab
  else
    say formulaTab "write" "Enter a Qlik formula to convert"
    element formulaTab "text_area" [.text "Qlik Formula"] [
      ("height", .value (.int 100)),
      ("placeholder", .text "Example: Sum(\x7b<Year=\x7b2023\x7d>\x7d Amount)")]
    if ← button entries formulaTab "Convert" [primary] then convertFormula entries

/-- A row of the results. -/
structure BatchResult where
  measure : DataCell
  formula : DataCell
  /-- The converted formula, or what is wrong with it. -/
  outcome : Except String String

/-- The columns of the results. -/
def resultColumns : List String :=
  ["measure_name", "qlik_formula", "dax_formula", "status", "error_message"]

/-- A row of the results as fields. -/
def BatchResult.fields (result : BatchResult) : List String :=
  [result.measure.field, result.formula.field] ++
    match result.outcome with
    | .ok measure => [measure, "Success", ""]
    | .error cause => ["", "Failed", cause]

/-- The results as a file. Without any result there are no columns. -/
def resultsFile (library : TableLibrary) : List BatchResult → String
  | [] => library.write [] []
  | results => library.write resultColumns (results.map BatchResult.fields)

/-- Converts the formula in a cell. Only a text is a formula. -/
def convertCell (schema : Schema) (cell : DataCell) : Except String String :=
  if cell.kind == "str" then (Dax.convert schema cell.text).mapError Dax.DaxError.message
  else .error ("'" ++ cell.kind ++ "' object has no attribute 'strip'")

/-- The share of the rows that a row number stands for. -/
def share (number : RowNumber) (height : Nat) : Float :=
  match number with
  | .whole n => Decimal.quotient n height
  | .real x => x / height.toFloat

/-- Converts rows of a table of some height, as far as they have numbers. -/
def convertRows (schema : Schema) (height : Nat) :
    List DataRow → Fragment (Except TableError (List BatchResult))
  | [] => return .ok []
  | row :: rest => do
    match row.label with
    | .error cause => return .error cause
    | .ok label =>
      let number := label.plus 1
      say (batchTab ++ ["empty"]) "text" ("Converting " ++ number.text ++ " of " ++
        toString height ++ "...")
      let measure := row.cell "measure_name"
      let formula := row.cell "qlik_formula"
      let outcome := convertCell schema formula
      element (batchTab ++ ["progress"]) "progress" [.real (share number height)] []
      match ← convertRows schema height rest with
      | .ok results => return .ok ({ measure, formula, outcome } :: results)
      | .error cause => return .error cause

/-- Converts a table of formulas. -/
def convertTable (library : TableLibrary) (table : DataTable) : Fragment Unit := do
  element batchTab "progress" [.value (.int 0)] []
  element batchTab "empty" [] []
  match ← convertRows (← session).schema table.rows.length table.rows with
  | .error cause => say batchTab "error" ("Error: " ++ cause.message)
  | .ok results =>
    say (batchTab ++ ["empty"]) "text" "Conversion complete!"
    let file := resultsFile library results
    element batchTab "dataframe" [.table file] []
    element batchTab "download_button" [] [
      ("label", .text "Download Results"),
      ("data", .text file),
      ("file_name", .text "dax_conversions.csv"),
      ("mime", .text "text/csv")]

/-- Shows an uploaded table of formulas and converts it on demand. -/
def showTable (library : TableLibrary) (entries : Entries) (file : ByteArray) :
    Fragment Unit := do
  match library.read file with
  | .error cause => say batchTab "error" ("Error: " ++ cause.message)
  | .ok table =>
    if !table.names.contains "measure_name" || !table.names.contains "qlik_formula" then
      say batchTab "error" "CSV must have columns: measure_name, qlik_formula"
    else
      say batchTab "write" ("Found " ++ toString table.rows.length ++ " formulas to convert")
      let head := library.write table.names ((table.rows.take 5).map DataRow.fields)
      element batchTab "dataframe" [.table head] []
      if ← button entries batchTab "Convert All" [primary] then convertTable library table

/-- Shows the tab that converts a table of formulas. -/
def showBatchTab (library : TableLibrary) (entries : Entries) : Fragment Unit := do
  say batchTab "header" "Step 3: Batch Convert"
  if !(← session).schemaLoaded then askForSchema batchTab
  else
    say batchTab "write" "Upload a CSV with multiple formulas to convert"
    say batchTab "info" "CSV must have columns: measure_name, qlik_formula"
    uploader batchTab "Upload Batch CSV" "batch" ["csv"] []
    match entries.batch with
    | some file => showTable library entries file
    | none => return

end QlikMigration.Page
