import QlikMigration.Json.Value

/-!
# Sample analyses

Two analyses that need no model: one to try the program with, and one that
stands for what a captioning model would find in any picture.
-/

namespace QlikMigration.Vision

open Json (Value)

/-- A position in percent of the page. -/
def position (x y width height : Nat) : Value :=
  .object [("x", .int x), ("y", .int y), ("width", .int width), ("height", .int height)]

/-- A visual of a sample. -/
def sampleVisual (id type : String) (place : Value) (title : String)
    (fields colors : List String) : Value :=
  .object [
    ("id", .text id),
    ("type", .text type),
    ("position", place),
    ("title", .text title),
    ("data_fields", .ofTexts fields),
    ("colors", .ofTexts colors)]

/-- A slicer of a sample. -/
def sampleSlicer (name : String) (place : Value) (field : String) : Value :=
  .object [("name", .text name), ("position", place), ("field", .text field)]

/-- The two slicers of the samples. -/
def sampleSlicers : Value :=
  .array [
    sampleSlicer "Year Slicer" (position 5 2 15 6) "Year",
    sampleSlicer "Region Filter" (position 25 2 15 6) "Region"]

/-- The one page of a sample. -/
def samplePage (name : String) (visuals : List Value) : Value :=
  .object [
    ("name", .text name),
    ("visuals", .array visuals),
    ("slicers", sampleSlicers),
    ("filters", .array [])]

/-- The analysis to try the program with. -/
def trialAnalysis : Value :=
  .object [
    ("pages", .array [samplePage "Sales Dashboard" [
      sampleVisual "visual_1" "bar_chart" (position 5 10 40 30) "Sales by Region"
        ["Region", "Sales Amount"] ["#0078D4"],
      sampleVisual "visual_2" "line_chart" (position 50 10 40 30) "Sales Trend"
        ["Date", "Sales Amount"] ["#50E6FF"],
      sampleVisual "visual_3" "card" (position 5 45 20 15) "Total Sales"
        ["Total Sales"] ["#107C10"],
      sampleVisual "visual_4" "pie_chart" (position 30 45 25 25) "Sales by Category"
        ["Category", "Sales"] ["#FFB900", "#E74856", "#0078D4"],
      sampleVisual "visual_5" "table" (position 60 45 35 25) "Top Products"
        ["Product", "Sales", "Quantity"] []]]),
    ("theme", .text "light"),
    ("total_visuals", .int 5)]

/-- The analysis that stands for a captioning model. -/
def captionAnalysis : Value :=
  .object [
    ("pages", .array [samplePage "Dashboard Page 1" [
      sampleVisual "visual_1" "bar_chart" (position 5 10 40 30) "Sales by Region"
        ["Region", "Sales Amount"] ["#0078D4", "#50E6FF"],
      sampleVisual "visual_2" "line_chart" (position 50 10 40 30) "Sales Trend Over Time"
        ["Date", "Sales Amount"] ["#50E6FF"],
      sampleVisual "visual_3" "card" (position 5 45 20 15) "Total Sales"
        ["Total Sales"] ["#107C10"],
      sampleVisual "visual_4" "pie_chart" (position 30 45 25 25) "Sales by Category"
        ["Category", "Sales"] ["#FFB900", "#E74856", "#0078D4", "#107C10"],
      sampleVisual "visual_5" "table" (position 60 45 35 25) "Top Products"
        ["Product", "Sales", "Quantity", "Profit"] []]]),
    ("theme", .text "light"),
    ("total_visuals", .int 5),
    ("note", .text "Analysis generated using Hugging Face (FREE, no API key required)")]

end QlikMigration.Vision
