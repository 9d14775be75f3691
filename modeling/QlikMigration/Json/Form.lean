import QlikMigration.Catalog
import QlikMigration.Json.Value

/-!
# Reading records out of a document

A record is read member by member, and all of its faults are collected, not
only the first: a member is at fault if it is required and absent, or null where
a value is needed, or of the wrong kind, or a word that names nothing. A fault
is the path to the member, its steps joined by points; positions in an array
count from zero.
-/

namespace QlikMigration.Json

universe u v

/-- A value read from a document together with the paths that are at fault. The value
means nothing unless there are none. -/
structure Audited (α : Type u) where
  value : α
  faults : List String

namespace Audited

variable {α : Type u} {β : Type v}

/-- A value without faults. -/
def sound (value : α) : Audited α := ⟨value, []⟩

/-- Goes on with the value and collects the faults of both. -/
def andThen (first : Audited α) (next : α → Audited β) : Audited β :=
  let second := next first.value
  ⟨second.value, first.faults ++ second.faults⟩

/-- The same faults, seen from the place that holds the value. -/
def under (place : String) (audited : Audited α) : Audited α :=
  { audited with
    faults := audited.faults.map fun path => if path == "" then place else place ++ "." ++ path }

end Audited

instance : Monad Audited where
  pure := Audited.sound
  bind := Audited.andThen

/-- Why a record cannot be built: its kind and the paths at fault, in the order in
which the record lists its members. -/
structure RecordError where
  record : String
  faults : List String
  deriving DecidableEq, Repr

/-- The wording of a record error. -/
def RecordError.message (error : RecordError) : String :=
  error.record ++ ": " ++ ", ".intercalate error.faults

/-- The value, unless something is at fault. -/
def Audited.accept {α : Type u} (record : String) (audited : Audited α) : Except RecordError α :=
  if audited.faults.isEmpty then .ok audited.value else .error ⟨record, audited.faults⟩

/-- The reader of one value: it yields a stand-in and a fault at the empty path if the
value is not of its kind. -/
structure Shape (α : Type u) where
  read : Value → Audited α
  standIn : α

namespace Shape

variable {α : Type u}

/-- A text. -/
def text : Shape String where
  read
    | .text value => .sound value
    | _ => ⟨"", [""]⟩
  standIn := ""

/-- A truth value. -/
def flag : Shape Bool where
  read
    | .bool value => .sound value
    | _ => ⟨false, [""]⟩
  standIn := false

/-- A text or null. -/
def optional (shape : Shape α) : Shape (Option α) where
  read
    | .null => .sound none
    | value => let read := shape.read value; ⟨some read.value, read.faults⟩
  standIn := none

/-- A word that names a value. -/
def word (ofWord? : String → Option α) (standIn : α) : Shape α where
  read
    | .text value => match ofWord? value with
      | some named => .sound named
      | none => ⟨standIn, [""]⟩
    | _ => ⟨standIn, [""]⟩
  standIn := standIn

/-- Items read from a position on. -/
def readItems (shape : Shape α) : Nat → List Value → Audited (List α)
  | _, [] => .sound []
  | position, item :: items =>
    ((shape.read item).under (toString position)).andThen fun value =>
      (readItems shape (position + 1) items).andThen fun values => .sound (value :: values)

/-- An array. -/
def list (shape : Shape α) : Shape (List α) where
  read
    | .array items => shape.readItems 0 items
    | _ => ⟨[], [""]⟩
  standIn := []

/-- Named entries, written as an array of pairs of a name and a value. -/
def readPairs (shape : Shape α) : List Value → Audited (List (String × α))
  | [] => .sound []
  | .array [.text name, value] :: rest =>
    ((shape.read value).under name).andThen fun entry =>
      (readPairs shape rest).andThen fun entries => .sound ((name, entry) :: entries)
  | _ :: rest => { readPairs shape rest with faults := "" :: (readPairs shape rest).faults }

/-- A catalog, written as an array of pairs. -/
def catalog (shape : Shape α) : Shape (Catalog α) where
  read
    | .array items => (shape.readPairs items).andThen fun entries => .sound (.ofList entries)
    | _ => ⟨∅, [""]⟩
  standIn := ∅

/-- A record whose reader collects faults. -/
def record (read : Value → Audited α) (standIn : α) : Shape α where
  read
    | .object members => read (.object members)
    | _ => ⟨standIn, [""]⟩
  standIn := standIn

end Shape

namespace Value

variable {α : Type u}

/-- A member that has to be there. -/
def required (value : Value) (name : String) (shape : Shape α) : Audited α :=
  match value.member? name with
  | some member => (shape.read member).under name
  | none => ⟨shape.standIn, [name]⟩

/-- A member that may be absent. -/
def withDefault (value : Value) (name : String) (shape : Shape α) (default : α) : Audited α :=
  match value.member? name with
  | some member => (shape.read member).under name
  | none => .sound default

/-- A member that may be absent or null. -/
def maybe (value : Value) (name : String) (shape : Shape α) : Audited (Option α) :=
  value.withDefault name shape.optional none

/-- The items of an array member; none if it is absent. -/
def itemsOf (value : Value) (name : String) : List Value :=
  match value.member? name with
  | some (.array items) => items
  | _ => []

end Value

end QlikMigration.Json
