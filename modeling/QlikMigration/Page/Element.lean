import QlikMigration.Outside
import QlikMigration.Publish
import QlikMigration.Schema

/-!
# Elements of the page

The page is built anew from top to bottom whenever something on it changes. A
run of the page is the sequence of elements it shows, each in a container: a
tab, a column, a section that can be opened, or a notice that something is going
on. What the user has entered is given at the start of a run, and what an
earlier run has found is kept in a session.
-/

namespace QlikMigration.Page

open Json (Value)

/-- What an element shows. -/
inductive Content
  /-- A plain value. -/
  | value (value : Value)
  /-- A floating-point number. -/
  | real (value : Float)
  /-- A table, as the file it would be written to. -/
  | table (file : String)
  /-- The uploaded picture. -/
  | upload
  /-- An archive to download. -/
  | archive (members : List (String × FileContent))
  /-- The trace of an error. -/
  | trace

/-- A text as content. -/
def Content.text (text : String) : Content := .value (.text text)

/-- A truth value as content. -/
def Content.flag (flag : Bool) : Content := .value (.bool flag)

/-- An element in its container. -/
structure Element where
  /-- The container, from the outermost name to the innermost. -/
  container : List String
  /-- What kind of element it is. -/
  kind : String
  /-- What it shows. -/
  contents : List Content
  /-- Its settings. -/
  settings : List (String × Content)

/-- An uploaded picture, or a file that was uploaded in its stead. -/
abbrev Upload := FileContent

/-- What the user has entered for a run. -/
structure Entries where
  /-- The uploaded schema. -/
  schema : Option ByteArray := none
  /-- The uploaded table of formulas. -/
  batch : Option ByteArray := none
  /-- The formula in the text area. -/
  formula : String := ""
  /-- The name of the dashboard; none if it is left as it was. -/
  dashboardName : Option String := none
  /-- The uploaded picture of a dashboard. -/
  picture : Option Upload := none
  /-- The labels of the buttons that are pressed. -/
  pressed : List String := []

/-- What is kept from run to run. -/
structure Session where
  schema : Schema := ∅
  /-- Whether a schema was loaded. -/
  schemaLoaded : Bool := false
  /-- The latest analysis. -/
  analysis : Value := .null
  /-- Whether the latest attempt to analyze was successful. -/
  analyzed : Bool := false
  /-- The latest published dashboard. -/
  published : Option Publish.Published := none
  /-- The path of the latest report project. -/
  project : Option String := none

/-- What a run changes. -/
structure State where
  world : World
  session : Session
  /-- The elements shown so far, the latest first. -/
  shown : List Element := []

/-- A fragment of a run. It stops early where a file that is needed cannot be written. -/
abbrev Fragment (α : Type) : Type := ExceptT FileError (StateM State) α

namespace Fragment

/-- Shows an element. -/
def element (container : List String) (kind : String) (contents : List Content)
    (settings : List (String × Content)) : Fragment Unit :=
  modify fun state =>
    { state with shown := { container, kind, contents, settings } :: state.shown }

/-- Shows a text in an element of some kind. -/
def say (container : List String) (kind text : String) : Fragment Unit :=
  element container kind [.text text] []

/-- The session. -/
def session : Fragment Session := do
  return (← get).session

/-- Changes the session. -/
def updateSession (f : Session → Session) : Fragment Unit :=
  modify fun state => { state with session := f state.session }

/-- The files. -/
def directory : Fragment Directory := do
  return (← get).world.directory

/-- Runs an effect in the world and gives back its outcome. -/
def attempt (effect : Effect ε α) : Fragment (Except ε α) := do
  let state ← get
  let (outcome, world) := effect.perform state.world
  set { state with world }
  return outcome

/-- Shows a button and says whether it is pressed. -/
def button (entries : Entries) (container : List String) (label : String)
    (settings : List (String × Content)) : Fragment Bool := do
  element container "button" [.text label] settings
  return entries.pressed.contains label

/-- Shows a place for uploads. -/
def uploader (container : List String) (label key : String) (types : List String)
    (settings : List (String × Content)) : Fragment Unit :=
  element container "file_uploader" [.text label]
    ([("type", .value (.ofTexts types)), ("key", .text key)] ++ settings)

end Fragment

/-- The setting of the button that matters most. -/
def primary : String × Content := ("type", .text "primary")

/-- The setting of an element as wide as its container. -/
def fullWidth : String × Content := ("use_container_width", .flag true)

end QlikMigration.Page
