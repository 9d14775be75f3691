import QlikMigration.Json.Value
import QlikMigration.Text.Cut

/-!
# Reaching into a document of unknown shape

The analysis of a dashboard comes from outside, and nothing checks its shape
before it is used. This module says what each way of reaching into a value gives
and how it fails: members are asked of objects only; texts, arrays and objects
have a size and can be gone through; texts and arrays can be indexed and cut.

No access invents a value. A default is used only where an object lacks a
member, never where the value is of the wrong kind.
-/

namespace QlikMigration.Json

/-- Why a value could not be reached. -/
inductive AccessError
  /-- Something was asked of a value that offers nothing of the sort. -/
  | noMember
  /-- The value is of a kind that the operation does not take. -/
  | wrongKind
  /-- The object has no member under the name or index. -/
  | missingKey
  /-- The index lies beyond the end. -/
  | outOfRange
  /-- The number is too large for a floating-point number. -/
  | tooLarge
  deriving DecidableEq, Repr

namespace Value

/-- The member of an object under a name, or a default if the object lacks it. -/
def getD (value : Value) (name : String) (default : Value) : Except AccessError Value :=
  match value with
  | object _ => .ok ((value.member? name).getD default)
  | _ => .error .noMember

/-- The number of characters, items or members. -/
def size : Value → Except AccessError Nat
  | text s => .ok s.length
  | array items => .ok items.length
  | object members => .ok members.length
  | _ => .error .wrongKind

/-- The characters of a text, the items of an array or the names of an object, in order. -/
def elements : Value → Except AccessError (List Value)
  | text s => .ok (s.toList.map fun c => text (String.singleton c))
  | array items => .ok items
  | object members => .ok (members.map fun member => text member.1)
  | _ => .error .wrongKind

/-- The element at an index. An object has only names, so no index is one of its keys. -/
def at? (value : Value) (index : Nat) : Except AccessError Value :=
  match value with
  | object _ => .error .missingKey
  | _ => do
    match (← value.elements)[index]? with
    | some element => .ok element
    | none => .error .outOfRange

/-- The elements after the first. An object cannot be cut. -/
def rest : Value → Except AccessError (List Value)
  | object _ => .error .wrongKind
  | value => do return (← value.elements).drop 1

/-- Whether an array has a text as an item, an object as a name, or a text as a part. -/
def holds (value : Value) (part : String) : Bool :=
  match value with
  | text s => Text.contains part.toList s.toList
  | array items => items.any fun
    | text s => s == part
    | _ => false
  | object members => members.any fun member => member.1 == part
  | _ => false

/-- Whether a value counts as present: null, false, zero and whatever is empty do not. -/
def isPresent : Value → Bool
  | null => false
  | bool b => b
  | int n => n != 0
  | real x => x != 0.0
  | text s => s != ""
  | array items => !items.isEmpty
  | object members => !members.isEmpty

/-- A number as a floating-point number; true is one and false is zero. -/
def toReal : Value → Except AccessError Float
  | bool b => .ok (if b then 1.0 else 0.0)
  | int n =>
    let x := Float.ofInt n
    if x.isInf then .error .tooLarge else .ok x
  | real x => .ok x
  | _ => .error .wrongKind

/-- A text, of which something is asked that only texts offer. -/
def asText : Value → Except AccessError String
  | text s => .ok s
  | _ => .error .noMember

/-- An object with a member set: in its place if the name is there, at the end otherwise. -/
def setMember (name : String) (value : Value) : List (String × Value) → List (String × Value)
  | [] => [(name, value)]
  | member :: rest =>
    if member.1 == name then (name, value) :: rest else member :: setMember name value rest

end Value

end QlikMigration.Json
