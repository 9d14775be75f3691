import QlikMigration.Json.Writer
import QlikMigration.Visual.Mapping

/-!
# Visuals placed on a page

A visual stands on a page in a container. The analysis gives positions in
percent of the page; a page is 1280 by 720, so a percent is 12.8 wide and 7.2
high. The container holds the visual's configuration as written text.
-/

namespace QlikMigration

open Json (Value AccessError)

/-- A place on a page. -/
structure Place where
  x : Float
  y : Float
  width : Float
  height : Float

namespace Place

/-- The width of a percent of the page. -/
def percentWidth : Float := 12.8

/-- The height of a percent of the page. -/
def percentHeight : Float := 7.2

/-- A position in percent as a place on the page. -/
def ofPosition (position : Value) : Except AccessError Place := do
  let side (name : String) (default : Int) (percent : Float) : Except AccessError Float := do
    return (← (← position.getD name (.int default)).toReal) * percent
  let x ← side "x" 0 percentWidth
  let y ← side "y" 0 percentHeight
  let width ← side "width" 30 percentWidth
  let height ← side "height" 20 percentHeight
  return { x, y, width, height }

/-- The members that give a place. -/
def members (place : Place) : List (String × Value) :=
  [("x", .real place.x), ("y", .real place.y), ("z", .int 0),
    ("width", .real place.width), ("height", .real place.height)]

end Place

/-- A visual placed on a page. -/
structure Container where
  /-- The name of the visual in the report. -/
  name : String
  /-- Where it stands. -/
  place : Place
  /-- The visual itself. -/
  visual : Visual
  /-- The title above it, if it has one. -/
  title : Option String

namespace Container

/-- The container of a description. -/
def ofDescription (name : String) (description : Value) : Except AccessError Container := do
  let place ← Place.ofPosition (← description.getD "position" (.object []))
  let visual ← Visual.ofDescription description
  let title ← description.getD "title" (.text "")
  return { name, place, visual, title := if title.isPresent then some title.display else none }

/-- A literal in a property. -/
def literal (value : String) : Value :=
  .object [("expr", .object [("Literal", .object [("Value", .text value)])])]

/-- The part of the configuration that shows a title. -/
def titleMembers : Option String → List (String × Value)
  | none => []
  | some title => [("vcObjects", .object [("title", .array [.object [("properties", .object [
      ("text", literal ("'" ++ title ++ "'")), ("show", literal "true")])]])])]

/-- The configuration of the visual. -/
def configuration (container : Container) : Value :=
  .object [
    ("name", .text container.name),
    ("layouts", .array [.object [
      ("id", .int 0), ("position", .object container.place.members)]]),
    ("singleVisual", .object ([
      ("visualType", .text container.visual.kind.reportName),
      ("projections", container.visual.projectionsDocument),
      ("prototypeQuery", .object [
        ("Version", .int 2),
        ("From", .array [.object [("Name", .text "s"), ("Entity", .text "SampleData")]]),
        ("Select", .array [])]),
      ("objects", container.visual.settings)] ++ titleMembers container.title))]

/-- The container as it stands in the layout of a report. -/
def document (container : Container) : Value :=
  .object (container.place.members ++ [
    ("config", .text container.configuration.compact),
    ("filters", .text "[]"),
    ("query", .text "\x7b\x7d")])

end Container

end QlikMigration
