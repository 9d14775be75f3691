import QlikMigration.Login
import QlikMigration.Publish
import QlikMigration.Report.Packed
import QlikMigration.Report.Project
import QlikMigration.Vision.Analyzer

/-!
# Commands of the dashboard tools

Each tool can be tried on its own from the command line: most of them run on a
small sample, and the one that makes report projects takes a file. A command
gives back its exit code, or fails where it does not report an error itself.
-/

namespace QlikMigration.Command

open Json (Value)
open Effect (printLine ask look outcome)

/-- What a command does not report itself. -/
inductive Failure
  | pack (cause : Report.PackError)
  | project (cause : Report.ProjectError)
  | analyzer (cause : Vision.AnalyzerError)
  | access (cause : Json.AccessError)
  | file (cause : FileError)
  | refused (text : String)
  deriving DecidableEq, Repr

/-- A visual of the samples below. -/
def sampleVisual (type : String) (place : Value) (title : String)
    (rest : List (String × Value)) : Value :=
  .object ([("type", .text type), ("position", place), ("title", .text title)] ++ rest)

/-- The visual that the command on visuals shows. -/
def trialVisual : Value :=
  .object [
    ("type", .text "bar_chart"),
    ("title", .text "Sales by Region"),
    ("data_fields", .ofTexts ["Region", "Sales Amount"]),
    ("colors", .ofTexts ["#0078D4", "#50E6FF"])]

/-- Shows how a visual is mapped. -/
def visualCommand : Effect Failure Nat := do
  let visual ← Effect.ofResult .access (Visual.ofDescription trialVisual)
  printLine ("Visual Type: " ++ visual.kind.reportName)
  printLine ("Projections: " ++ visual.projectionsDocument.display)
  printLine ("Objects: " ++ visual.settings.display)
  return 0

/-- The dashboard that the command on packed reports packs. -/
def trialDashboard : Value :=
  .object [
    ("pages", .array [.object [
      ("name", .text "Sales Dashboard"),
      ("visuals", .array [
        sampleVisual "bar_chart" (Vision.position 5 10 40 30) "Sales by Region"
          [("data_fields", .ofTexts ["Region", "Sales Amount"]), ("colors", .ofTexts ["#0078D4"])],
        sampleVisual "line_chart" (Vision.position 50 10 40 30) "Sales Trend"
          [("data_fields", .ofTexts ["Date", "Sales Amount"]), ("colors", .ofTexts ["#50E6FF"])],
        sampleVisual "card" (Vision.position 5 45 20 15) "Total Sales"
          [("data_fields", .ofTexts ["Total Sales"])]]),
      ("slicers", .array [Vision.sampleSlicer "Year" (Vision.position 5 2 15 6) "Year"])]]),
    ("theme", .text "light")]

/-- Packs a sample report. -/
def packCommand (identity : Report.Identity) : Effect Failure Nat := do
  let path ← Effect.mapError .pack (Report.createPacked identity trialDashboard
    "output/sample_dashboard.pbix" "Sample Sales Dashboard")
  printLine ("Generated PBIX: " ++ path)
  return 0

/-- How the command on report projects is used. -/
def projectUsage : List String := [
  "Usage: python simple_pbip_generator.py <json_file>",
  "Example: python simple_pbip_generator.py My_Dashboard_analysis.json"]

/-- Makes the report project of an analysis in a file. -/
def projectCommand (arguments : List String) : Effect Failure Nat := do
  match arguments with
  | [] =>
    projectUsage.forM printLine
    return 1
  | source :: _ =>
    if !(← get).directory.has (.ofText source) then
      printLine ("❌ File not found: " ++ source)
      return 1
    let archive ← Effect.mapError .project (Report.createProject source "output")
    printLine ("\n✅ PBIP file created: " ++ archive)
    printLine "\nNext steps:"
    printLine "1. Extract the ZIP file"
    printLine "2. Open the .pbip file in Power BI Desktop"
    printLine "3. The dashboard structure will be loaded!"
    return 0

/-- The picture that the analyzers are tried on. -/
def trialPicture : String := "examples/sample_dashboard.png"

/-- Tries the captioning analyzer. -/
def captionCommand : Effect Failure Nat := do
  if (← get).directory.has (.ofText trialPicture) then
    printLine "Analyzing with Hugging Face (FREE)..."
    let analysis ← Effect.mapError .analyzer (Vision.analyzeByCaption trialPicture)
    printLine analysis.pretty
  else printLine "No API key needed! Just upload an image to test."
  return 0

/-- Tries the analyzer that asks a model. -/
def modelCommand (services : Services) : Effect Failure Nat := do
  discard <| Effect.mapError .analyzer (Vision.openModel services none)
  if (← get).directory.has (.ofText trialPicture) then
    printLine "Analyzing with Gemini Vision (FREE)..."
    let analysis ← Effect.mapError .analyzer (Vision.analyzeByModel services trialPicture)
    printLine analysis.pretty
  else printLine "Image not found. Please provide a dashboard screenshot."
  return 0

/-- Publishes a sample dashboard. -/
def publishCommand (services : Services) : Effect Failure Nat := do
  let attempt : Effect Publish.PublishError Publish.Published := do
    Publish.connect services none
    Publish.publish services "Test Dashboard" none
  match ← outcome attempt with
  | .ok published => printLine ("Success! Report URL: " ++ published.url)
  | .error cause => printLine ("Error: " ++ cause.message)
  return 0

/-- Logs in and shows the token. -/
def loginCommand (services : Services) : Effect Failure Nat := do
  discard <| Effect.mapError (fun cause => .refused cause.text) (Login.run services)
  return 0

/-- The overview that is printed. -/
def overviewSource : String :=
  "C:\\Users\\mayan\\.gemini\\antigravity\\brain\\" ++
    "31c1ec74-f58f-41c7-ad7a-14e71a865fe5\\project_overview.md"

/-- Where the printed overview is saved. -/
def overviewTarget : String := "d:\\IQVIA\\Task 1\\DAX-Converter\\project_overview.pdf"

/-- Prints the overview. -/
def printCommand (services : Services) : Effect Failure Nat := do
  let text ← look .file (·.readText overviewSource)
  ask services .refused (.addSection text)
  ask services .refused (.saveDocument overviewTarget)
  printLine ("PDF created successfully: " ++ overviewTarget)
  return 0

end QlikMigration.Command
