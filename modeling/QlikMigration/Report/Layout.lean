import QlikMigration.Visual.Container

/-!
# The layout of a report

A report has one section for each page of the analysis. A section holds a
container for each visual and then one for each slicer of its page, each named
by the numbers of the page and of the visual on it.
-/

namespace QlikMigration.Report

open Json (Value AccessError)

/-- A section of a report: a page with its visuals. -/
structure Section where
  /-- The number of the page, counted from zero. -/
  index : Nat
  /-- The title of the page. -/
  title : Value
  /-- What stands on the page. -/
  containers : List Container

/-- The name of the visual or slicer at a position on a page. -/
def containerName (what : String) (page position : Nat) : String :=
  what ++ "_" ++ toString page ++ "_" ++ toString position

/-- The containers of the given descriptions, numbered from a position on. -/
def containersFrom (what : String) (page : Nat) : Nat → List Value →
    Except AccessError (List Container)
  | _, [] => .ok []
  | position, description :: rest => do
    let container ← Container.ofDescription (containerName what page position) description
    return container :: (← containersFrom what page (position + 1) rest)

/-- A slicer's description with its type set. Only an object can take the type. -/
def asSlicer : Value → Except AccessError Value
  | .object members => .ok (.object (Value.setMember "type" (.text "slicer") members))
  | _ => .error .wrongKind

/-- The containers of slicers, numbered from a position on. -/
def slicersFrom (page : Nat) : Nat → List Value → Except AccessError (List Container)
  | _, [] => .ok []
  | position, description :: rest => do
    let container ←
      Container.ofDescription (containerName "slicer" page position) (← asSlicer description)
    return container :: (← slicersFrom page (position + 1) rest)

/-- The section of a page. -/
def Section.ofPage (index : Nat) (page : Value) : Except AccessError Section := do
  let visuals ← (← page.getD "visuals" (.array [])).elements
  let visuals ← containersFrom "visual" index 0 visuals
  let slicers ← (← page.getD "slicers" (.array [])).elements
  let slicers ← slicersFrom index 0 slicers
  let title ← page.getD "name" (.text ("Page " ++ toString (index + 1)))
  return { index, title, containers := visuals ++ slicers }

/-- The sections of pages, numbered from an index on. -/
def sectionsFrom : Nat → List Value → Except AccessError (List Section)
  | _, [] => .ok []
  | index, page :: rest => do
    let part ← Section.ofPage index page
    return part :: (← sectionsFrom (index + 1) rest)

/-- The sections of an analysis. -/
def sectionsOf (analysis : Value) : Except AccessError (List Section) := do
  sectionsFrom 0 (← (← analysis.getD "pages" (.array [])).elements)

/-- A section as it stands in the layout. -/
def Section.document (part : Section) : Value :=
  .object [
    ("id", .int part.index),
    ("displayName", part.title),
    ("filters", .text "[]"),
    ("visualContainers", .array (part.containers.map Container.document)),
    ("config", .text "\x7b\x7d")]

/-- The layout of a report with the given name. -/
def layoutDocument (name : String) (sections : List Section) : Value :=
  .object [
    ("id", .int 0),
    ("resourcePackages", .array [.object [
      ("name", .text "SharedResources"), ("type", .int 3), ("items", .array [])]]),
    ("config", .text (Value.compact (.object [
      ("name", .text name),
      ("layouts", .array [.object [("id", .int 0), ("displayName", .text "Default")]])]))),
    ("layoutOptimization", .int 0),
    ("sections", .array (sections.map Section.document))]

end QlikMigration.Report
