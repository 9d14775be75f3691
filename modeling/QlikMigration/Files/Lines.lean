import QlikMigration.Files.Directory

/-!
# Text files

A text file is read with every line ended by a line feed, however its lines end
in the file. Bytes hold text if they are UTF-8, archives and pictures hold none.
-/

namespace QlikMigration

/-- Lines ended in any of the usual ways, ended by a line feed each. -/
def plainLines : List Char → List Char
  | [] => []
  | '\r' :: '\n' :: rest => '\n' :: plainLines rest
  | '\r' :: rest => '\n' :: plainLines rest
  | c :: rest => c :: plainLines rest

/-- The text of a file. -/
def FileContent.readText : FileContent → Except FileError String
  | .text written => .ok (String.ofList (plainLines written.toList))
  | .bytes content =>
    match String.fromUTF8? content with
    | some written => .ok (String.ofList (plainLines written.toList))
    | none => .error .notText
  | .archive _ | .unfinished | .picture .. => .error .notText

/-- Reads the text of a file by its name. -/
def Directory.readText (directory : Directory) (name : String) : Except FileError String := do
  (← directory.readName name).readText

end QlikMigration
