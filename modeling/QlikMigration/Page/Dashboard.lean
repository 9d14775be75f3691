import QlikMigration.Page.Element
import QlikMigration.Report.Project
import QlikMigration.Vision.Analyzer

/-!
# The tab on dashboards

The tab takes the picture of a dashboard, analyzes it, and offers the analysis
for publishing, for download and as a report project. The picture is kept in a
file while the tab is built. What was found, published or made in an earlier run
is shown again as long as a picture is uploaded.
-/

namespace QlikMigration.Page

open Json (Value)
open Fragment (element say session updateSession directory attempt button uploader)

/-- The tab on dashboards. -/
def dashboardTab : List String := ["🎨 Visualize Dashboard"]

/-- A column of the tab. -/
def dashboardColumn (number : Nat) : List String :=
  dashboardTab ++ ["column " ++ toString number]

/-- Where an uploaded picture is kept. -/
def pictureFile : String := "temp_dashboard_upload.png"

/-- Where an analysis is kept while a report project is made of it. -/
def analysisFile : String := "temp_analysis.json"

/-- A text block whose lines are set in by some blanks. -/
def block (indent : Nat) (lines : List String) : String :=
  let lead := String.ofList ('\n' :: List.replicate indent ' ')
  "".intercalate ((lines ++ [""]).map fun line => lead ++ line)

/-- Analyzes the picture. -/
def analyze (workingDirectory : String) : Fragment Unit := do
  let label := "Analyzing dashboard... This may take 10-20 seconds"
  say dashboardTab "spinner" label
  let inside := dashboardTab ++ [label]
  match ← attempt (Vision.analyzeByCaption pictureFile) with
  | .ok analysis =>
    updateSession fun session => { session with analysis, analyzed := true }
    say inside "success" "✅ Analysis complete!"
  | .error cause =>
    say inside "error" ("Analysis failed: " ++ cause.message workingDirectory)
    updateSession fun session => { session with analyzed := false }

/-- Shows what an analysis found. -/
def showFindings (analysis : Value) : Fragment Unit := do
  let column := dashboardColumn 2
  say column "subheader" "📊 Analysis Results"
  let metric (label : String) (count : Nat) : Fragment Unit :=
    element column "metric" [.text label, .value (.int count)] []
  match Vision.summarize Vision.Analyzer.captioning.defaultTheme analysis,
      Vision.visualTypes analysis with
  | .ok summary, .ok types =>
    metric "Total Pages" summary.pages.length
    metric "Total Visuals" summary.visuals
    metric "Total Slicers" summary.slicers
    say column "write" "**Visual Types Detected:**"
    say column "write" (", ".intercalate (types.map Value.display))
  | _, _ => return

/-- Publishes the dashboard. -/
def publishDashboard (services : Services) (name : String) : Fragment Unit := do
  let column := dashboardColumn 1
  let label := "Publishing to Power BI Service..."
  say column "spinner" label
  let inside := column ++ [label]
  let effect : Effect Publish.PublishError Publish.Published := do
    Publish.connect services none
    Publish.publish services name none
  match ← attempt effect with
  | .ok published =>
    updateSession fun session => { session with published := some published }
    say inside "success" ("✅ Published to Power BI: " ++ published.name)
  | .error (.refused text) =>
    say inside "error" ("Publishing failed: " ++ text)
    element inside "code" [.trace] []
  | .error cause =>
    say inside "error" ("❌ Setup required: " ++ cause.message)
    say inside "info" "📖 Requires Power BI Pro/Premium account"

/-- The wording of an error with a report project. An analysis that the tab has found is
always a document of the right shape. -/
def projectMessage : Report.ProjectError → String
  | .file cause => cause.message
  | _ => ""

/-- Makes a report project of the analysis. -/
def makeProject (analysis : Value) : Fragment Unit := do
  let column := dashboardColumn 3
  let label := "Generating Power BI file..."
  say column "spinner" label
  let inside := column ++ [label]
  let effect : Effect Report.ProjectError String := do
    Effect.change .file (·.writeName analysisFile (.text analysis.pretty))
    let path ← Report.createProject analysisFile "output"
    Effect.change .file fun directory => .ok (directory.removeFile [analysisFile])
    return path
  match ← attempt effect with
  | .ok path =>
    updateSession fun session => { session with project := some path }
    say inside "success" "✅ PBIP file generated!"
  | .error cause =>
    say inside "error" ("Generation failed: " ++ projectMessage cause)
    element inside "code" [.trace] []

/-- Shows the dashboard that was published. -/
def showPublished (published : Publish.Published) : Fragment Unit := do
  say dashboardTab "success" "🎉 Dashboard published successfully!"
  element dashboardTab "columns" [.value (.int 2)] []
  let metric (label value : String) : Fragment Unit :=
    element (dashboardColumn 1) "metric" [.text label, .text value] []
  metric "Report Name" published.name
  metric "Workspace" published.workspace.name
  say (dashboardColumn 2) "markdown" "**Report URL:**"
  say (dashboardColumn 2) "markdown" ("[Open in Power BI](" ++ published.url ++ ")")
  say dashboardTab "info" (block 16 [
    "**Next Steps:**",
    "1. Click the link above to open your report in Power BI",
    "2. Connect to your actual data sources",
    "3. Customize visuals as needed",
    "4. Share with your team!"])

/-- Shows the report project that was made, if it is still there. -/
def showProject (path : String) : Fragment Unit := do
  let archive := FilePath.ofText path
  match (← directory).read archive with
  | .ok (.archive members) =>
    element dashboardTab "download_button" [] [
      ("label", .text "📥 Download PBIP File (ZIP)"),
      ("data", .archive members),
      ("file_name", .text archive.name),
      ("mime", .text "application/zip"),
      primary]
    say dashboardTab "info" (block 20 [
      "**How to use:**",
      "1. Download the ZIP file above",
      "2. Extract the ZIP file",
      "3. Open the .pbip file in Power BI Desktop (FREE)",
      "4. Your dashboard structure will load!"])
  | _ => return

/-- The name of the file that an analysis is downloaded as. -/
def downloadName (dashboard : String) : String :=
  String.ofList (Text.replaceChar ' ' ['_'] dashboard.toList) ++ "_analysis.json"

/-- Shows an analysis and what can be done with it. -/
def showAnalysis (services : Services) (entries : Entries) (name : String) : Fragment Unit := do
  let analysis := (← session).analysis
  showFindings analysis
  let details := "🔍 View Detailed Analysis"
  say dashboardTab "expander" details
  element (dashboardTab ++ [details]) "json" [.value analysis] []
  element dashboardTab "divider" [] []
  say dashboardTab "subheader" "📤 Export Dashboard"
  say dashboardTab "write" "Choose how to export your analyzed dashboard:"
  element dashboardTab "columns" [.value (.int 3)] []
  if ← button entries (dashboardColumn 1) "⚡ Publish to Power BI Service" [primary, fullWidth]
  then publishDashboard services name
  element (dashboardColumn 2) "download_button" [] [
    ("label", .text "📥 Download JSON"),
    ("data", .text analysis.pretty),
    ("file_name", .text (downloadName name)),
    ("mime", .text "application/json"),
    fullWidth]
  if ← button entries (dashboardColumn 3) "📦 Generate PBIP File" [fullWidth] then
    makeProject analysis
  say dashboardTab "info" (block 12 [
    "**Options:**",
    "- **Publish to Power BI**: Requires Power BI Pro/Premium account",
    "- **Download JSON**: Get raw analysis data",
    "- **Generate PBIP**: Create Power BI file to open in Power BI Desktop (FREE)"])
  match (← session).published with
  | some published => showPublished published
  | none => pure ()
  match (← session).project with
  | some path => showProject path
  | none => pure ()

/-- Shows an uploaded picture, analyzes it on demand and shows the analysis there is. -/
def showPicture (services : Services) (workingDirectory : String) (entries : Entries)
    (name : String) (picture : Upload) : Fragment Unit := do
  element dashboardTab "columns" [.value (.array [.int 1, .int 1])] []
  say (dashboardColumn 1) "subheader" "📸 Uploaded Dashboard"
  element (dashboardColumn 1) "image" [.upload] [fullWidth]
  let save : Effect FileError Unit := Effect.change id (·.writeName pictureFile picture)
  match ← attempt save with
  | .error cause => throw cause
  | .ok () => pure ()
  if ← button entries dashboardTab "🔍 Analyze Dashboard" [primary] then
    analyze workingDirectory
  if (← session).analyzed then showAnalysis services entries name
  let clear : Effect FileError Unit :=
    Effect.change id fun directory => .ok (directory.removeFile [pictureFile])
  discard <| attempt clear

/-- Shows the tab on dashboards. -/
def showDashboardTab (services : Services) (workingDirectory : String) (entries : Entries) :
    Fragment Unit := do
  say dashboardTab "header" "Step 3: Convert Dashboard to Power BI"
  say dashboardTab "write"
    "Upload a Qlik dashboard screenshot and generate a Power BI (.pbix) file"
  say dashboardTab "info" (block 4 [
    "**How it works:**",
    "1. Upload a screenshot of your Qlik dashboard",
    "2. AI analyzes the layout and visual elements",
    "3. Generate a Power BI file with similar visuals",
    "4. Download and open in Power BI Desktop",
    "",
    "**Note:** Generated visuals use sample data. " ++
      "You'll need to connect to your actual data source in Power BI."])
  say dashboardTab "success" "✅ Using Hugging Face Vision (100% FREE, unlimited requests)"
  let usualName := "My Dashboard"
  element dashboardTab "text_input" [.text "Dashboard Name"]
    [("value", .text usualName), ("key", .text "dashboard_name")]
  let name := entries.dashboardName.getD usualName
  uploader dashboardTab "Upload Dashboard Screenshot" "dashboard_image" ["png", "jpg", "jpeg"]
    [("help", .text "Upload a clear screenshot of your Qlik dashboard")]
  match entries.picture with
  | some picture => showPicture services workingDirectory entries name picture
  | none => return

end QlikMigration.Page
