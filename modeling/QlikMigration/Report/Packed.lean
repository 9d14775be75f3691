import QlikMigration.Outside
import QlikMigration.Report.Layout

/-!
# Packed reports

A packed report is an archive of four members: the content types, the report's
identity, its layout and the schema of its sample data. The members are gathered
in a folder of their own, which is removed at the end whether the report could
be made or not; the archive is written only once all of them are there.
-/

namespace QlikMigration.Report

open Json (Value AccessError)
open Effect (printLine look change outcome)

/-- What tells one report from another: its identifier and the time it was made. -/
structure Identity where
  id : String
  created : String
  deriving DecidableEq, Repr

/-- The content types of the members. -/
def contentTypes : String := "\n".intercalate [
  "<?xml version=\"1.0\" encoding=\"utf-8\"?>",
  "<Types xmlns=\"http://schemas.openxmlformats.org/package/2006/content-types\">",
  "  <Default Extension=\"json\" ContentType=\"application/json\" />",
  "  <Override PartName=\"/Report/Layout\" ContentType=\"application/json\" />",
  "  <Override PartName=\"/DataModelSchema\" ContentType=\"application/xml\" />",
  "</Types>"]

/-- The identity of a report as a document. -/
def Identity.document (identity : Identity) : Value :=
  .object [
    ("name", .text "PowerBIReport"),
    ("id", .text identity.id),
    ("version", .text "1.0"),
    ("createdDateTime", .text identity.created)]

/-- A column of the sample data's schema. -/
def schemaColumn (name type : String) : List String := [
  "          <Column>",
  "            <Name>" ++ name ++ "</Name>",
  "            <DataType>" ++ type ++ "</DataType>",
  "          </Column>"]

/-- The schema of the sample data. -/
def dataSchema : String := "\n".intercalate ([
  "<?xml version=\"1.0\" encoding=\"utf-8\"?>",
  "<DataModelSchema xmlns=\"http://schemas.microsoft.com/analysisservices/2003/engine\">",
  "  <Model>",
  "    <Name>Model</Name>",
  "    <Tables>",
  "      <Table>",
  "        <Name>SampleData</Name>",
  "        <Columns>"] ++
  schemaColumn "Category" "String" ++
  schemaColumn "Value" "Int64" ++
  schemaColumn "Date" "DateTime" ++ [
  "        </Columns>",
  "      </Table>",
  "    </Tables>",
  "  </Model>",
  "</DataModelSchema>"])

/-- Why a report could not be packed. -/
inductive PackError
  /-- The analysis could not be reached into. -/
  | access (cause : AccessError)
  /-- The files could not be written. -/
  | file (cause : FileError)
  deriving DecidableEq, Repr

/-- The folder in which the members are gathered. -/
def gatheringFolder : FilePath := ⟨false, ["temp_pbix_generation"]⟩

/-- Where the gathering folder is. -/
def gatheringPlace : List String := ["temp_pbix_generation"]

/-- Writes the members that do not depend on the analysis. -/
def writeBase (identity : Identity) : Effect PackError Unit := do
  change .file (·.makeFolder (gatheringFolder.child "Report"))
  change .file (·.makeFolder (gatheringFolder.child "Metadata"))
  change .file (·.write (gatheringFolder.child "[Content_Types].xml") (.text contentTypes))
  change .file (·.write ((gatheringFolder.child "Metadata").child "metadata.json")
    (.text identity.document.pretty))

/-- Writes the layout. -/
def writeLayout (analysis : Value) (name : String) : Effect PackError Unit := do
  let sections ← Effect.ofResult .access (sectionsOf analysis)
  change .file (·.write ((gatheringFolder.child "Report").child "Layout")
    (.text (layoutDocument name sections).pretty))

/-- Writes the schema of the sample data. -/
def writeSchema : Effect PackError Unit :=
  change .file (·.write (gatheringFolder.child "DataModelSchema") (.text dataSchema))

/-- Packs what was gathered into an archive at a path. -/
def packAt (output : FilePath) : Effect PackError Unit := do
  change .file (·.makeFolders output.parent)
  change .file (·.write output .unfinished)
  change .file fun directory =>
    directory.write output (.archive (directory.pack gatheringPlace []))

/-- Gathers the members and packs them. -/
def gather (identity : Identity) (analysis : Value) (output : FilePath) (name : String) :
    Effect PackError Unit := do
  writeBase identity
  writeLayout analysis name
  writeSchema
  packAt output
  printLine ("Successfully generated: " ++ output.text)

/-- Makes a packed report of an analysis at a path, and gives back the path. -/
def createPacked (identity : Identity) (analysis : Value) (output name : String) :
    Effect PackError String := do
  printLine ("Generating Power BI file: " ++ name)
  change .file (·.makeFolder gatheringFolder)
  let result ← outcome (gather identity analysis (.ofText output) name)
  modify fun world => { world with directory := world.directory.removeTree gatheringPlace }
  Effect.ofResult id result
  return (FilePath.ofText output).text

end QlikMigration.Report
