import QlikMigration.Files.Directory
import QlikMigration.Json.Value

/-!
# The world outside

What a program asks of services it does not contain, what those answer, and what
it leaves behind. An *effect* runs against a world and may fail; the lines it
printed, the requests it made and the files it wrote up to a failure stay.

The services are given by their answers. Nothing is assumed about them but that
one of them may refuse a request with some text.
-/

namespace QlikMigration

open Json (Value)

/-- A request to a service. -/
inductive Request
  /-- Opens the report service with an access token. -/
  | connect (token : String)
  /-- Asks for the workspaces there are. -/
  | listWorkspaces
  /-- Asks for a workspace by its identifier. -/
  | openWorkspace (id : String)
  /-- Creates a dataset from its definition. -/
  | postDataset (definition : Value)
  /-- Adds rows to a table of a dataset. -/
  | postRows (table : String) (rows : Value)
  /-- Creates a report from its definition. -/
  | postReport (definition : Value)
  /-- Opens the login service as a client of an authority. -/
  | openLogin (client authority : String)
  /-- Lets the user log in for some scopes. -/
  | acquireToken (scopes : List String)
  /-- Sets the key for the image model's service. -/
  | configure (key : String)
  /-- Chooses an image model. -/
  | chooseModel (name : String)
  /-- Asks the model about a picture of some size. -/
  | generate (prompt : String) (width height : Nat)
  /-- Adds a section to a printed document. -/
  | addSection (text : String)
  /-- Saves a printed document. -/
  | saveDocument (path : String)

/-- A workspace of the report service. -/
structure Workspace where
  id : String
  name : String
  deriving DecidableEq, Repr

/-- What the services answer. -/
structure Services where
  /-- The text with which a request is refused, if it is. -/
  refusal? : Request → Option String := fun _ => none
  /-- The workspaces there are. -/
  workspaces : List Workspace := []
  /-- The identifier of a new dataset. -/
  datasetId : String
  /-- The identifier of a new report. -/
  reportId : String
  /-- What a login gives. -/
  login : Value := .null
  /-- What the image model replies. -/
  reply : String := ""
  /-- The key for the image model that the environment holds. -/
  modelKey : Option String := none
  /-- The access token that the environment holds. -/
  accessToken : Option String := none

/-- The workspace with an identifier; its name is a question mark if nobody knows it. -/
def Services.workspace (services : Services) (id : String) : Workspace :=
  (services.workspaces.find? fun workspace => workspace.id == id).getD ⟨id, "?"⟩

/-- What an effect leaves behind. -/
structure World where
  /-- What was printed. -/
  printed : String := ""
  /-- The requests made, the latest first. -/
  requests : List Request := []
  /-- The files. -/
  directory : Directory := {}

/-- An effect: it changes the world and gives a result or fails. -/
abbrev Effect (ε α : Type) : Type := ExceptT ε (StateM World) α

namespace Effect

/-- Runs an effect. -/
def perform (effect : Effect ε α) (world : World) : Except ε α × World :=
  StateT.run (ExceptT.run effect) world

/-- Prints a text and ends the line. -/
def printLine (text : String) : Effect ε Unit :=
  modify fun world => { world with printed := world.printed ++ text ++ "\n" }

/-- Makes a request and fails if it is refused. -/
def ask (services : Services) (refused : String → ε) (request : Request) : Effect ε Unit := do
  modify fun world => { world with requests := request :: world.requests }
  match services.refusal? request with
  | some text => throw (refused text)
  | none => return

/-- Reads from the files. -/
def look (failed : FileError → ε) (read : Directory → Except FileError α) : Effect ε α := do
  match read (← get).directory with
  | .ok found => return found
  | .error cause => throw (failed cause)

/-- Changes the files. -/
def change (failed : FileError → ε) (write : Directory → Except FileError Directory) :
    Effect ε Unit := do
  match write (← get).directory with
  | .ok directory => modify fun world => { world with directory }
  | .error cause => throw (failed cause)

/-- An effect that runs another one and gives back its outcome, failed or not. -/
def outcome (effect : Effect ε α) : Effect δ (Except ε α) :=
  fun world => let (result, after) := effect.perform world; (.ok result, after)

/-- An effect whose failure is told in other terms. -/
def mapError (f : ε → δ) (effect : Effect ε α) : Effect δ α :=
  fun world => let (result, after) := effect.perform world; (result.mapError f, after)

/-- A result that needs no world. -/
def ofResult (f : ε → δ) : Except ε α → Effect δ α
  | .ok a => pure a
  | .error e => throw (f e)

end Effect

/-- A key or token: the given one, or else that of the environment. An empty one counts as
none. -/
def chooseSecret (given environment : Option String) : Option String :=
  match given with
  | some secret => if secret == "" then nonEmpty environment else some secret
  | none => nonEmpty environment
where
  /-- A text that is there and not empty. -/
  nonEmpty : Option String → Option String
    | some text => if text == "" then none else some text
    | none => none

end QlikMigration
