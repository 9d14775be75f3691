import QlikMigration.Decimal.FloatStyle
import QlikMigration.Json.Value
import QlikMigration.Text.Quoted

/-!
# Values in running text

A value that is put into a message or a label is shown rather than written as a
document. A text stands for itself, but in quotes once it is inside an array or
an object; the constants are capitalised, and a number that is not finite has
its short name.
-/

namespace QlikMigration.Json.Value

mutual

/-- A value as it is shown inside another one, where texts are quoted. -/
def inspect : Value → String
  | null => "None"
  | bool true => "True"
  | bool false => "False"
  | int n => toString n
  | real x => Decimal.FloatStyle.plain.write x
  | text s => Text.quote s
  | array items => "[" ++ ", ".intercalate (inspectItems items) ++ "]"
  | object members => "\x7b" ++ ", ".intercalate (inspectMembers members) ++ "\x7d"

/-- The items of an array, each shown. -/
def inspectItems : List Value → List String
  | [] => []
  | item :: rest => inspect item :: inspectItems rest

/-- The members of an object, each with its name. -/
def inspectMembers : List (String × Value) → List String
  | [] => []
  | (name, value) :: rest => (Text.quote name ++ ": " ++ inspect value) :: inspectMembers rest

end

/-- A value as it is shown on its own. -/
def display : Value → String
  | text s => s
  | value => inspect value

/-- The word for the kind of a value. -/
def kindWord : Value → String
  | null => "NoneType"
  | bool _ => "bool"
  | int _ => "int"
  | real _ => "float"
  | text _ => "str"
  | array _ => "list"
  | object _ => "dict"

/-- A text is shown as it stands. -/
@[simp] theorem display_text (s : String) : display (text s) = s := rfl

end QlikMigration.Json.Value
