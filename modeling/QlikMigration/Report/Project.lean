import QlikMigration.Files.Lines
import QlikMigration.Json.Access
import QlikMigration.Json.Reader
import QlikMigration.Json.Writer
import QlikMigration.Outside

/-!
# Report projects

A report project is a folder with a project file and the definition of its
report, packed into an archive beside it. It is made from an analysis kept in a
file and named after the analysis' first page; spaces and slashes of the name
become underscores. All other names are taken as they are, also those that lead
elsewhere.
-/

namespace QlikMigration.Report

open Json (Value AccessError)
open Effect (printLine look change)

/-- Why a project could not be made. -/
inductive ProjectError
  /-- The analysis is not a document that can be read. -/
  | document (cause : Json.ReadError)
  /-- The analysis could not be reached into. -/
  | access (cause : AccessError)
  /-- The files could not be read or written. -/
  | file (cause : FileError)
  deriving DecidableEq, Repr

/-- The name of the dashboard: that of its first page. -/
def dashboardName (analysis : Value) : Except AccessError Value := do
  let pages ← analysis.getD "pages" .null
  if pages.isPresent then
    if 0 < (← pages.size) then
      return ← (← pages.at? 0).getD "name" (.text "Dashboard")
  return .text "Dashboard"

/-- A name for files: an underscore for each space and slash. -/
def fileName (name : String) : String :=
  String.ofList (Text.replaceChar '/' ['_'] (Text.replaceChar ' ' ['_'] name.toList))

/-- The project file. -/
def projectDocument (name : String) : Value :=
  .object [
    ("version", .text "1.0"),
    ("artifacts", .array [.object [("report", .object [("path", .text (name ++ ".Report"))])]])]

/-- A page of the report's definition. -/
def pageDocument (page : Value) : Except AccessError Value := do
  let name ← page.getD "name" (.text "Page 1")
  return .object [
    ("name", name),
    ("displayName", name),
    ("width", .int 1280),
    ("height", .int 720),
    ("visualContainers", .array [])]

/-- The report's definition. -/
def definitionDocument (analysis : Value) : Except AccessError Value := do
  let pages ← (← analysis.getD "pages" (.array [])).elements
  return .object [
    ("version", .text "5.0"),
    ("dataModelRefs", .array [.object [("name", .text "SampleModel")]]),
    ("pages", .array (← pages.mapM pageDocument))]

/-- Packs a folder into an archive. Members are named from the folder around it. -/
def packFolder (folder archive : FilePath) : Effect ProjectError Unit := do
  change .file (·.write archive .unfinished)
  change .file fun directory => do
    let place ← directory.locate folder folder.text
    directory.write archive (.archive (directory.pack place
      (folder.steps.drop folder.parent.steps.length)))

/-- Makes the project of an analysis inside an output folder, under a name, and gives back the
path of its archive. -/
def assembleProject (analysis : Value) (outer : FilePath) (name : String) :
    Effect ProjectError String := do
  change .file (·.makeFolder outer)
  let folder := outer.child name
  change .file (·.makeFolder folder)
  change .file (·.write (folder.child (name ++ ".pbip")) (.text (projectDocument name).pretty))
  let report := folder.child (name ++ ".Report")
  change .file (·.makeFolder report)
  let definition ← Effect.ofResult .access (definitionDocument analysis)
  change .file (·.write (report.child "definition.pbir") (.text definition.pretty))
  let archive := outer.child (name ++ ".zip")
  packFolder folder archive
  printLine ("✅ Created PBIP: " ++ archive.text)
  return archive.text

/-- Makes the project of the analysis in a file, named after its dashboard. -/
def createProject (source output : String) : Effect ProjectError String := do
  let text ← look .file (·.readText source)
  let analysis ← Effect.ofResult .document (Json.read text.toList)
  let dashboard ← Effect.ofResult .access do (← dashboardName analysis).asText
  assembleProject analysis (FilePath.ofText output) (fileName dashboard)

/-- A column of the sample model. -/
def sampleColumn (name type tag : String) : List String := [
  "    column " ++ name,
  "      dataType: " ++ type,
  "      lineageTag: " ++ tag]

/-- The sample model that a report project may refer to. -/
def sampleModel : String := "\n".intercalate ([
  "model Model",
  "  culture: en-US",
  "",
  "  table SampleData",
  "    lineageTag: sample-data",
  ""] ++
  sampleColumn "Category" "string" "category" ++ [""] ++
  sampleColumn "Value" "int64" "value" ++ [""] ++
  sampleColumn "Date" "dateTime" "date" ++ [""])

end QlikMigration.Report
