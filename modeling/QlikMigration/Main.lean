import QlikMigration.Command.Convert

/-!
# The command line

Converts a script file: the arguments are the name of the script and, if wanted,
the name of the program to write. The files that the command may touch are read
from the disk beforehand, the command runs on them, and what it changed is
written back.
-/

namespace QlikMigration.Main

/-- Whether a folder is on the disk. -/
def folderOnDisk (name : String) : IO Bool := do
  try
    (← IO.FS.realPath name).isDir
  catch _ => return false

/-- The file of a name on the disk, if it can be read. -/
def fileOnDisk? (name : String) : IO (Option String) := do
  try
    return some (← IO.FS.readFile name)
  catch _ => return none

/-- A place as a name on the disk. -/
def diskName (place : List String) : String :=
  "/".intercalate place

/-- The directory with what the disk has along a name. -/
def loadAlong (directory : Directory) (name : String) : IO Directory := do
  let path := FilePath.ofName name
  let start := if path.absolute then ["/"] else []
  let mut directory := directory
  for place in Directory.placesAlong start path.steps do
    if ← folderOnDisk (diskName place) then directory := directory.addFolder place
    else if let some text ← fileOnDisk? (diskName place) then
      directory := directory.put place (.text text)
  return directory

/-- The names that the command may touch. -/
def touchedNames : List String → List String
  | [] => []
  | input :: rest =>
    let output := Command.outputArgument rest
    [input, Command.programPath input output, Command.modelPath input output]

/-- Writes the files that differ from those before. -/
def saveChanges (before after : Directory) : IO Unit := do
  for (place, content) in after.files.entries do
    match content, before.file? place with
    | .text text, some (.text kept) => if text != kept then IO.FS.writeFile (diskName place) text
    | .text text, _ => IO.FS.writeFile (diskName place) text
    | _, _ => pure ()

/-- Runs the command on the disk and gives back its exit code. -/
def runOnDisk (arguments : List String) : IO UInt32 := do
  let mut directory : Directory := {}
  for name in touchedNames arguments do
    directory ← loadAlong directory name
  let command : Effect Empty Nat := Command.convertCommand arguments
  let (outcome, world) := command.perform { directory }
  saveChanges directory world.directory
  IO.print world.printed
  match outcome with
  | .ok code => return code.toUInt32
  | .error never => nomatch never

end QlikMigration.Main

/-- The command line. -/
def main (arguments : List String) : IO UInt32 :=
  QlikMigration.Main.runOnDisk arguments
