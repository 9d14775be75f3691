/-!
# Documents

A document is a tree of the usual six kinds of value. Whole numbers of any size
are kept apart from floating-point numbers, and an object keeps its members in
the order in which their names first came up.
-/

namespace QlikMigration.Json

/-- A value of a document. -/
inductive Value
  | null
  | bool (value : Bool)
  | int (value : Int)
  | real (value : Float)
  | text (value : String)
  | array (items : List Value)
  | object (members : List (String × Value))
  deriving Inhabited, Repr

namespace Value

/-- The member of an object under a name. -/
def member? (value : Value) (name : String) : Option Value :=
  match value with
  | object members => (members.find? fun member => member.1 == name).map Prod.snd
  | _ => none

/-- A text, or null if it is absent. -/
def ofText? : Option String → Value
  | some value => text value
  | none => null

/-- A list of texts. -/
def ofTexts (values : List String) : Value :=
  array (values.map text)

end Value

end QlikMigration.Json
