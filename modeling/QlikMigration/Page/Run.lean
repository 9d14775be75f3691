import QlikMigration.Page.Dashboard
import QlikMigration.Page.Measures

/-!
# Running the page

A run builds the whole page for what the user has entered, on the session and
the files that earlier runs have left.
-/

namespace QlikMigration.Page

open Fragment (element say)

/-- Builds the page. -/
def build (library : TableLibrary) (services : Services) (workingDirectory : String)
    (entries : Entries) : Fragment Unit := do
  let title := "Qlik to Power BI Accelerator"
  element [] "set_page_config" [] [
    ("page_title", .text title), ("page_icon", .text "📊"), ("layout", .text "wide")]
  say [] "title" ("🚀 " ++ title)
  say [] "write" ("Convert Qlik assets to Power BI: Measures (DAX), Scripts (PySpark), " ++
    "and Dashboards (PBIX)")
  element [] "tabs" [.value (.ofTexts (schemaTab ++ formulaTab ++ batchTab ++ dashboardTab))] []
  showSchemaTab library entries
  showFormulaTab entries
  showBatchTab library entries
  showDashboardTab services workingDirectory entries

/-- What a run gives: the elements in order, what it left, and why it stopped early. -/
structure Outcome where
  elements : List Element
  /-- The requests of this run, in order. -/
  requests : List Request
  session : Session
  directory : Directory
  stopped : Option FileError

/-- Runs the page once. -/
def run (library : TableLibrary) (services : Services) (workingDirectory : String)
    (session : Session) (directory : Directory) (entries : Entries) : Outcome :=
  let start : State := { world := { directory }, session }
  let (result, after) :=
    StateT.run (ExceptT.run (build library services workingDirectory entries)) start
  { elements := after.shown.reverse
    requests := after.world.requests.reverse
    session := after.session
    directory := after.world.directory
    stopped := match result with
      | .ok () => none
      | .error cause => some cause }

end QlikMigration.Page
