import QlikMigration.Text.Cut

/-!
# Paths

A path is a sequence of steps from the working directory, or from the root if it
is absolute. Written paths come in two readings. A *name* is followed step by
step as it stands, so that `a/.` asks for the folder `a`. A *path* is first
tidied: empty steps and single dots are left out. Two dots stay in both, since
what they lead to is decided by the folders that are there.
-/

namespace QlikMigration

/-- A path: where it starts, and the steps from there. -/
structure FilePath where
  /-- Whether it starts at the root. -/
  absolute : Bool
  /-- The steps. -/
  steps : List String
  deriving DecidableEq, Repr

namespace FilePath

/-- The pieces of a written path between its slashes. -/
def pieces (written : String) : List String :=
  (List.splitOn '/' written.toList).map String.ofList

/-- Whether a written path starts at the root. -/
def startsAtRoot (written : String) : Bool :=
  ['/'].isPrefixOf written.toList

/-- The path of a written path, tidied. -/
def ofText (written : String) : FilePath :=
  { absolute := startsAtRoot written
    steps := (pieces written).filter fun piece => piece != "" && piece != "." }

/-- The steps of a name as it stands. A slash at its end asks for a folder. -/
def ofName (written : String) : FilePath :=
  let steps := (pieces written).filter fun piece => piece != ""
  { absolute := startsAtRoot written
    steps := if ['/'].isSuffixOf written.toList then steps ++ ["."] else steps }

/-- A path as text; the working directory itself is a single dot. -/
def text (path : FilePath) : String :=
  match path.absolute, path.steps with
  | true, steps => "/" ++ "/".intercalate steps
  | false, [] => "."
  | false, steps => "/".intercalate steps

/-- The path one step further. A step that is empty or a single dot leads nowhere. -/
def child (path : FilePath) (step : String) : FilePath :=
  if step == "" || step == "." then path else { path with steps := path.steps ++ [step] }

/-- The path without its last step. -/
def parent (path : FilePath) : FilePath :=
  { path with steps := path.steps.dropLast }

/-- The last step of a path. -/
def name (path : FilePath) : String :=
  path.steps.getLast?.getD ""

end FilePath

end QlikMigration
