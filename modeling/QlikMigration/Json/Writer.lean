import QlikMigration.Decimal.FloatStyle
import QlikMigration.Json.Value

/-!
# Writing documents

Documents are written in printing ASCII: any other character becomes one or two
escaped code units. They are written either on one line, with a space after
each comma and colon, or with one item or member a line and two spaces for each
level. An empty array or object is written without a line end in both forms.
-/

namespace QlikMigration.Json

/-- The hexadecimal digits of a code unit, four of them. -/
def hexUnit (n : Nat) : List Char :=
  [n / 4096 % 16, n / 256 % 16, n / 16 % 16, n % 16].map Nat.digitChar

/-- A code unit as an escape. -/
def escapeUnit (n : Nat) : List Char :=
  '\\' :: 'u' :: hexUnit n

/-- A character inside a written text. -/
def writeChar (c : Char) : List Char :=
  if c == '"' then ['\\', '"']
  else if c == '\\' then ['\\', '\\']
  else if c == '\n' then ['\\', 'n']
  else if c == '\r' then ['\\', 'r']
  else if c == '\t' then ['\\', 't']
  else if c.toNat == 8 then ['\\', 'b']
  else if c.toNat == 12 then ['\\', 'f']
  else if 0x20 ≤ c.toNat && c.toNat < 0x7F then [c]
  else if c.toNat < 0x10000 then escapeUnit c.toNat
  else
    let code := c.toNat - 0x10000
    escapeUnit (0xD800 + code / 0x400) ++ escapeUnit (0xDC00 + code % 0x400)

/-- A text in quotes. -/
def writeText (text : String) : String :=
  String.ofList ('"' :: (text.toList.flatMap writeChar ++ ['"']))

/-- How the parts of an array or object are set apart. -/
inductive Layout
  /-- Everything on one line. -/
  | line
  /-- Each part on a line of its own, at a level of indentation. -/
  | indented (level : Nat)
  deriving Repr

namespace Layout

/-- The layout of the parts inside. -/
def inner : Layout → Layout
  | line => line
  | indented level => indented (level + 1)

/-- The line break before a part at this layout; empty on one line. -/
def lineBreak : Layout → String
  | line => ""
  | indented level => String.ofList ('\n' :: List.replicate (2 * level) ' ')

/-- What stands between two parts. -/
def separator : Layout → String
  | line => ", "
  | indented level => "," ++ lineBreak (indented level)

/-- Parts between an opening and a closing mark. -/
def enclose (layout : Layout) (opening closing : String) (parts : List String) : String :=
  match parts with
  | [] => opening ++ closing
  | _ =>
    opening ++ layout.inner.lineBreak ++ layout.inner.separator.intercalate parts ++
      layout.lineBreak ++ closing

end Layout

mutual

/-- A value in a layout. -/
def write (layout : Layout) : Value → String
  | .null => "null"
  | .bool true => "true"
  | .bool false => "false"
  | .int n => toString n
  | .real x => Decimal.FloatStyle.document.write x
  | .text s => writeText s
  | .array items => layout.enclose "[" "]" (writeItems layout.inner items)
  | .object members => layout.enclose "\x7b" "\x7d" (writeMembers layout.inner members)

/-- The items of an array, one by one. -/
def writeItems (layout : Layout) : List Value → List String
  | [] => []
  | item :: items => write layout item :: writeItems layout items

/-- The members of an object, one by one. -/
def writeMembers (layout : Layout) : List (String × Value) → List String
  | [] => []
  | (name, value) :: members =>
    (writeText name ++ ": " ++ write layout value) :: writeMembers layout members

end

/-- A value on one line. -/
def Value.compact (value : Value) : String :=
  write .line value

/-- A value with one part a line. -/
def Value.pretty (value : Value) : String :=
  write (.indented 0) value

end QlikMigration.Json
