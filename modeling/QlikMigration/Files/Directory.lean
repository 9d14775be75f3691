import QlikMigration.Catalog
import QlikMigration.Files.Path
import QlikMigration.Text.Quoted

/-!
# A working directory

The files a program reads and leaves behind, as a value: folders and files, each
at a place. A place is where a path leads once its dots are resolved, so two
paths with one place name one file. Every operation says what it needs to be
there and fails otherwise, naming the path it was given.
-/

namespace QlikMigration

/-- What a file holds. -/
inductive FileContent
  /-- Text. -/
  | text (written : String)
  /-- Bytes as they were given. -/
  | bytes (content : ByteArray)
  /-- Named members, each with what it holds, as in a packed folder. -/
  | archive (members : List (String × FileContent))
  /-- The beginning of an archive that is being written. How many of its bytes have reached
  the file by then is left open. -/
  | unfinished
  /-- A picture of some width and height. -/
  | picture (width height : Nat)

/-- Why an operation on files failed. -/
inductive FileError
  /-- Nothing is there, or a folder on the way is missing. -/
  | notFound (path : String)
  /-- Something is there already. -/
  | alreadyThere (path : String)
  /-- A folder is there, where a file is asked for. -/
  | isFolder (path : String)
  /-- A file is on the way, where a folder is asked for. -/
  | notFolder (path : String)
  /-- A step is too long for a name. -/
  | nameTooLong (path : String)
  /-- The path has a zero character. -/
  | zeroCharacter
  /-- The file does not hold text. It is worded as for a picture; at which byte another file
  ceases to be text is left open. -/
  | notText
  deriving DecidableEq, Repr

/-- The wording of a file error. -/
def FileError.message : FileError → String
  | notFound path => "[Errno 2] No such file or directory: " ++ Text.quote path
  | alreadyThere path => "[Errno 17] File exists: " ++ Text.quote path
  | isFolder path => "[Errno 21] Is a directory: " ++ Text.quote path
  | notFolder path => "[Errno 20] Not a directory: " ++ Text.quote path
  | nameTooLong path => "[Errno 36] File name too long: " ++ Text.quote path
  | zeroCharacter => "embedded null byte"
  | notText => "'utf-8' codec can't decode byte 0x89 in position 0: invalid start byte"

/-- A working directory. -/
structure Directory where
  files : Catalog FileContent (List String) := ∅
  folders : List (List String) := []

namespace Directory

/-- The place one step from a place. Nothing lies around the root. -/
def stepFrom (place : List String) (step : String) : List String :=
  if step == "." then place
  else if step == ".." then
    match place.getLast? with
    | none => [".."]
    | some ".." => place ++ [".."]
    | some "/" => place
    | some _ => place.dropLast
  else place ++ [step]

/-- The file at a place. -/
def file? (directory : Directory) (place : List String) : Option FileContent :=
  directory.files.get? place

/-- Whether a folder is at a place. The working directory and those around it are there. -/
def isFolderAt (directory : Directory) (place : List String) : Bool :=
  place.all (· == "..") || place == ["/"] || directory.folders.contains place

/-- The place at the end of some steps, each of which but the last has to lead to a folder. -/
def follow (directory : Directory) (path : String) (place : List String) :
    List String → Except FileError (List String)
  | [] => .ok place
  | step :: rest =>
    let next := stepFrom place step
    if rest.isEmpty then .ok next
    else if directory.isFolderAt next then directory.follow path next rest
    else if (directory.file? next).isSome then .error (.notFolder path)
    else .error (.notFound path)

/-- The places that some steps lead through, from a place on. -/
def placesAlong (place : List String) : List String → List (List String)
  | [] => [place]
  | step :: rest => place :: placesAlong (stepFrom place step) rest

/-- The longest name a step may have, in bytes. -/
def longestName : Nat := 255

/-- Where a path leads. -/
def locate (directory : Directory) (path : FilePath) (written : String) :
    Except FileError (List String) :=
  if path.steps.any fun step => step.toList.contains (Char.ofNat 0) then .error .zeroCharacter
  else do
    let place ← directory.follow written (if path.absolute then ["/"] else []) path.steps
    if path.steps.any fun step => longestName < step.utf8ByteSize then
      .error (.nameTooLong written)
    else return place

/-- Puts a file at a place, over what was there. -/
def put (directory : Directory) (place : List String) (content : FileContent) : Directory :=
  { directory with files := directory.files.put place content }

/-- Adds a folder at a place. -/
def addFolder (directory : Directory) (place : List String) : Directory :=
  if directory.isFolderAt place then directory
  else { directory with folders := directory.folders ++ [place] }

/-- Whether something is at the end of a path. -/
def has (directory : Directory) (path : FilePath) : Bool :=
  match directory.locate path path.text with
  | .ok place => directory.isFolderAt place || (directory.file? place).isSome
  | .error _ => false

/-- The file at the end of a path. -/
def readAt (directory : Directory) (path : FilePath) (written : String) :
    Except FileError FileContent := do
  let place ← directory.locate path written
  if directory.isFolderAt place then throw (.isFolder written)
  match directory.file? place with
  | some content => return content
  | none => throw (.notFound written)

/-- Writes a file at the end of a path. -/
def writeAt (directory : Directory) (path : FilePath) (written : String)
    (content : FileContent) : Except FileError Directory := do
  let place ← directory.locate path written
  if directory.isFolderAt place then throw (.isFolder written)
  return directory.put place content

/-- Reads the file of a tidied path. -/
def read (directory : Directory) (path : FilePath) : Except FileError FileContent :=
  directory.readAt path path.text

/-- Writes the file of a tidied path. -/
def write (directory : Directory) (path : FilePath) (content : FileContent) :
    Except FileError Directory :=
  directory.writeAt path path.text content

/-- Reads the file of a name. No file has the empty name. -/
def readName (directory : Directory) (name : String) : Except FileError FileContent :=
  if name == "" then .error (.notFound name) else directory.readAt (.ofName name) name

/-- Writes the file of a name. -/
def writeName (directory : Directory) (name : String) (content : FileContent) :
    Except FileError Directory :=
  if name == "" then .error (.notFound name) else directory.writeAt (.ofName name) name content

/-- Makes a folder, unless it is there already. -/
def makeFolder (directory : Directory) (path : FilePath) : Except FileError Directory := do
  let place ← directory.locate path path.text
  if (directory.file? place).isSome then throw (.alreadyThere path.text)
  return directory.addFolder place

/-- Makes a folder and those around it; the steps are given from the last to the first. -/
def makeFoldersFrom (directory : Directory) (absolute : Bool) :
    List String → Except FileError Directory
  | [] => .ok directory
  | step :: outer =>
    let path : FilePath := ⟨absolute, (step :: outer).reverse⟩
    match directory.makeFolder path with
    | .error (.notFound _) => do
      (← directory.makeFoldersFrom absolute outer).makeFolder path
    | made => made

/-- Makes a folder and those around it. -/
def makeFolders (directory : Directory) (path : FilePath) : Except FileError Directory :=
  directory.makeFoldersFrom path.absolute path.steps.reverse

/-- Removes a file. -/
def removeFile (directory : Directory) (place : List String) : Directory :=
  { directory with files := directory.files.filter (· != place) }

/-- Removes a folder and all inside. -/
def removeTree (directory : Directory) (place : List String) : Directory :=
  { files := directory.files.filter fun spot => !place.isPrefixOf spot
    folders := directory.folders.filter fun folder => !place.isPrefixOf folder }

/-- The files inside a folder, each with the steps from there. -/
def filesUnder (directory : Directory) (place : List String) :
    List (List String × FileContent) :=
  directory.files.entries.filterMap fun (spot, content) =>
    if place.isPrefixOf spot then some (spot.drop place.length, content) else none

/-- Sorts named things by name. -/
def sortByName (entries : List (String × α)) : List (String × α) :=
  entries.mergeSort fun a b => decide (a.1 ≤ b.1)

/-- The files of a folder as members of an archive, named by the steps from there after
some leading steps, in order of their names. -/
def pack (directory : Directory) (place lead : List String) : List (String × FileContent) :=
  sortByName ((directory.filesUnder place).map fun (steps, content) =>
    ("/".intercalate (lead ++ steps), content))

/-- All files that are not pictures, by name, in the order of their names. -/
def listing (directory : Directory) : List (String × FileContent) :=
  sortByName (directory.files.entries.map fun (place, content) => ("/".intercalate place, content))

/-- The names at the top of the working directory, in order. -/
def topNames (directory : Directory) : List String :=
  let inside := (directory.files.names ++ directory.folders).filterMap fun place =>
    match place with
    | ".." :: _ => none
    | "/" :: _ => none
    | step :: _ => some step
    | [] => none
  inside.eraseDups.mergeSort fun a b => decide (a ≤ b)

/-- The directory with a file at a path and all folders on the way. -/
def withFile (directory : Directory) (written : String) (content : FileContent) : Directory :=
  let steps := (FilePath.ofText written).steps
  let directory := (List.range steps.length).foldl (fun directory count =>
    directory.addFolder (steps.take count)) directory
  directory.put steps content

end Directory

end QlikMigration
