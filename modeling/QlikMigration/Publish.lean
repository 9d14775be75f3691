import QlikMigration.Outside

/-!
# Publishing a dashboard

A dashboard is published in a workspace of the report service: a dataset with
three sample rows, and a report that refers to it. What was posted before a
request is refused stays posted.
-/

namespace QlikMigration.Publish

open Json (Value)
open Effect (printLine ask)

/-- Why a dashboard could not be published. -/
inductive PublishError
  /-- There is no access token. -/
  | noToken
  /-- The service has no workspace. -/
  | noWorkspace
  /-- The service refused a request. -/
  | refused (text : String)
  deriving DecidableEq, Repr

/-- The wording of a publishing error. -/
def PublishError.message : PublishError → String
  | noToken =>
    "Power BI access token not found. Set POWERBI_ACCESS_TOKEN environment variable.\n" ++
      "See setup instructions in POWERBI_SETUP.md"
  | noWorkspace => "No Power BI workspaces found. Please create a workspace first."
  | refused text => text

/-- A published dashboard. -/
structure Published where
  name : String
  workspace : Workspace
  reportId : String
  deriving DecidableEq, Repr

/-- Where the report of a published dashboard can be opened. -/
def Published.url (published : Published) : String :=
  "https://app.powerbi.com/groups/" ++ published.workspace.id ++ "/reports/" ++ published.reportId

/-- Opens the service with a token, given or from the environment. -/
def connect (services : Services) (given : Option String) : Effect PublishError Unit := do
  match chooseSecret given services.accessToken with
  | none => throw .noToken
  | some token => ask services .refused (.connect token)

/-- The workspace to publish in: the given one, or the first there is. -/
def chooseWorkspace (services : Services) (given : Option String) :
    Effect PublishError Workspace := do
  match chooseSecret given none with
  | some id =>
    ask services .refused (.openWorkspace id)
    return services.workspace id
  | none =>
    ask services .refused .listWorkspaces
    match services.workspaces with
    | [] => throw .noWorkspace
    | workspace :: _ => return workspace

/-- The name of the table with the sample rows. -/
def sampleTable : String := "SampleData"

/-- The definition of a dashboard's dataset. -/
def datasetDefinition (name : String) : Value :=
  let column (name type : String) : Value :=
    .object [("name", .text name), ("dataType", .text type)]
  .object [
    ("name", .text (name ++ "_Dataset")),
    ("tables", .array [.object [
      ("name", .text sampleTable),
      ("columns", .array [
        column "Category" "string", column "Value" "Int64", column "Date" "DateTime"])]])]

/-- The sample rows. -/
def sampleRows : Value :=
  let row (category : String) (value : Nat) (date : String) : Value :=
    .object [("Category", .text category), ("Value", .int value), ("Date", .text date)]
  .array [
    row "A" 100 "2024-01-01T00:00:00Z",
    row "B" 200 "2024-01-02T00:00:00Z",
    row "C" 150 "2024-01-03T00:00:00Z"]

/-- The definition of a dashboard's report. -/
def reportDefinition (name datasetId : String) : Value :=
  .object [("name", .text name), ("datasetId", .text datasetId)]

/-- Publishes a dashboard. -/
def publish (services : Services) (name : String) (workspace : Option String) :
    Effect PublishError Published := do
  printLine ("Publishing dashboard: " ++ name)
  let workspace ← chooseWorkspace services workspace
  printLine ("Using workspace: " ++ workspace.name)
  ask services .refused (.postDataset (datasetDefinition name))
  ask services .refused (.postRows sampleTable sampleRows)
  ask services .refused (.postReport (reportDefinition name services.datasetId))
  printLine ("Report created: " ++ name)
  return { name, workspace, reportId := services.reportId }

end QlikMigration.Publish
