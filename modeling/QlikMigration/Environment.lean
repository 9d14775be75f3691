import QlikMigration.Catalog
import QlikMigration.Files.Lines
import QlikMigration.Text.Blank
import QlikMigration.Text.Cut

/-!
# Settings files

A settings file gives variables of the environment, one a line: a name, an equals
sign and a value, each trimmed. Blank lines, lines that start with a number sign
and lines without an equals sign are left out. A later line wins over an earlier
one and over what the environment held before.
-/

namespace QlikMigration

/-- The variables of an environment. -/
abbrev Environment := Catalog String

/-- Why a variable cannot be set. -/
inductive SettingError
  /-- Its name or value has a zero character. -/
  | zeroCharacter
  /-- It has no name. -/
  | noName
  deriving DecidableEq, Repr

namespace Environment

open Text (trim)

/-- The name and value that a line sets, if it sets one. -/
def settingOf? (line : List Char) : Option (List Char × List Char) :=
  let line := trim line
  if ['#'].isPrefixOf line || !line.contains '=' then none
  else some (trim (line.takeWhile (· != '=')), trim ((line.dropWhile (· != '=')).drop 1))

/-- Sets a variable. -/
def assign (environment : Environment) (name value : List Char) :
    Except SettingError Environment :=
  let zero := Char.ofNat 0
  if name.contains zero || value.contains zero then .error .zeroCharacter
  else if name.isEmpty then .error .noName
  else .ok (environment.put (String.ofList name) (String.ofList value))

/-- Sets what a line sets. -/
def applyLine (environment : Environment) (line : List Char) :
    Except SettingError Environment :=
  match settingOf? line with
  | none => .ok environment
  | some (name, value) => assign environment name value

/-- Sets what a settings file sets. -/
def applyFile (environment : Environment) (text : String) : Except SettingError Environment :=
  (List.splitOn '\n' (plainLines text.toList)).foldlM applyLine environment

end Environment

end QlikMigration
