import QlikMigration.Script.Keyword
import QlikMigration.Text.Cut

/-!
# Statement lines

A script is read line by line. Comments go first: everything from two slashes
on, and everything from the word `REM` on, wherever in the line they stand.
Lines that are blank afterwards are dropped. The rest are joined with single
spaces until one ends in a semicolon, and each group is one statement line; a
last group without a semicolon is kept as well.

The cut at two slashes does not look at quotes or brackets.
-/

namespace QlikMigration.Script

open QlikMigration.Text

/-- A line up to the first word `REM`. -/
def withoutRemark (line : List Char) : List Char :=
  match findFirst? (fun prev rest =>
      if wordMayStart prev then
        (after? .remark rest).filter fun tail => !startsWord tail
      else
        none) line with
  | some (kept, _) => kept
  | none => line

/-- A line without comments and without white space around it. -/
def cleanLine (line : List Char) : List Char :=
  trim (withoutRemark (before ['/', '/'] line))

/-- Joins cleaned lines into statement lines, where `pending` is the statement begun
so far. -/
def gather (pending : List Char) : List (List Char) → List (List Char)
  | [] => if pending.isEmpty then [] else [pending]
  | line :: rest =>
    let text := if pending.isEmpty then line else pending ++ ' ' :: line
    if [';'].isSuffixOf line then text :: gather [] rest else gather text rest

/-- The statement lines of a script. -/
def statementLines (script : List Char) : List (List Char) :=
  gather [] (((List.splitOn '\n' script).map cleanLine).filter fun line => !line.isEmpty)

end QlikMigration.Script
