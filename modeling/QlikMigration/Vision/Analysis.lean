import QlikMigration.Decimal.Exact
import QlikMigration.Json.Access
import QlikMigration.Json.Display

/-!
# The analysis of a dashboard

An analysis is a document with pages, each with its visuals, slicers and
filters. Nothing checks it before it is summed up, so a summary fails where the
document cannot be reached into.
-/

namespace QlikMigration.Vision

open Json (Value AccessError)

/-- What a page holds. -/
structure PageSummary where
  /-- The title of the page. -/
  name : Value
  visuals : Nat
  slicers : Nat
  filters : Nat

/-- What a dashboard holds. -/
structure Summary where
  pages : List PageSummary
  theme : Value

namespace Summary

/-- The number of visuals on all pages. -/
def visuals (summary : Summary) : Nat :=
  summary.pages.foldl (fun count page => count + page.visuals) 0

/-- The number of slicers on all pages. -/
def slicers (summary : Summary) : Nat :=
  summary.pages.foldl (fun count page => count + page.slicers) 0

end Summary

/-- The pages of an analysis. -/
def pagesOf (analysis : Value) : Except AccessError (List Value) := do
  (← analysis.getD "pages" (.array [])).elements

/-- Sums up a page. -/
def summarizePage (page : Value) : Except AccessError PageSummary := do
  let name ← page.getD "name" (.text "Unnamed")
  let visuals ← (← page.getD "visuals" (.array [])).size
  let slicers ← (← page.getD "slicers" (.array [])).size
  let filters ← (← page.getD "filters" (.array [])).size
  return { name, visuals, slicers, filters }

/-- Sums up an analysis. The theme is the given one where the analysis names none. -/
def summarize (defaultTheme : String) (analysis : Value) : Except AccessError Summary := do
  let pages ← (← pagesOf analysis).mapM summarizePage
  let theme ← analysis.getD "theme" (.text defaultTheme)
  return { pages, theme }

/-- The numeric value of a number or truth value. -/
def number? : Value → Option Value
  | .bool b => some (.int (if b then 1 else 0))
  | .int n => some (.int n)
  | .real x => some (.real x)
  | _ => none

/-- Whether one number is below another. -/
def numberBelow (a b : Value) : Bool :=
  match number? a, number? b with
  | some (.int m), some (.int n) => m < n
  | some (.real x), some (.real y) => x < y
  | some (.int m), some (.real y) => Decimal.compareWhole? m y == some .lt
  | some (.real x), some (.int n) => Decimal.compareWhole? n x == some .gt
  | _, _ => false

/-- Whether two simple values count as one: numbers by their value, also across their kinds. -/
def sameSimple (a b : Value) : Bool :=
  match a, b with
  | .null, .null => true
  | .text s, .text t => s == t
  | a, b => match number? a, number? b with
    | some (.int m), some (.int n) => m == n
    | some (.real x), some (.real y) => x == y
    | some (.int m), some (.real y) => Decimal.compareWhole? m y == some .eq
    | some (.real x), some (.int n) => Decimal.compareWhole? n x == some .eq
    | _, _ => false

/-- Whether a value is simple: arrays and objects cannot be told apart by value. -/
def isSimple : Value → Bool
  | .array _ => false
  | .object _ => false
  | _ => true

/-- Adds a value to a list of different ones. -/
def addType (types : List Value) (type : Value) : Except AccessError (List Value) :=
  if !isSimple type then .error .wrongKind
  else .ok (if types.any (sameSimple type) then types else types ++ [type])

/-- The type a visual is described by. -/
def typeOf (visual : Value) : Except AccessError Value :=
  visual.getD "type" (.text "unknown")

/-- Adds the types of a page's visuals. -/
def addPageTypes (types : List Value) (page : Value) : Except AccessError (List Value) := do
  let visuals ← (← page.getD "visuals" (.array [])).elements
  visuals.foldlM (fun types visual => do addType types (← typeOf visual)) types

/-- Sorts types. Texts are in order among themselves and numbers among themselves; a mixture
has no order. -/
def sortTypes (types : List Value) : Except AccessError (List Value) :=
  let texts := types.filterMap fun
    | .text s => some s
    | _ => none
  if types.length ≤ 1 then .ok types
  else if texts.length == types.length then
    .ok ((texts.mergeSort fun a b => decide (a ≤ b)).map .text)
  else if types.all fun type => (number? type).isSome then
    .ok (types.mergeSort fun a b => !numberBelow b a)
  else .error .wrongKind

/-- The different types of the visuals of an analysis, in order. -/
def visualTypes (analysis : Value) : Except AccessError (List Value) := do
  let types ← (← pagesOf analysis).foldlM addPageTypes []
  sortTypes types

end QlikMigration.Vision
