import QlikMigration.Outside
import QlikMigration.Vision.Analysis
import QlikMigration.Vision.Reply
import QlikMigration.Vision.Sample

/-!
# Analyzers

Three ways to an analysis of a dashboard's picture: the trial one gives the same
analysis without looking, the captioning one looks at the picture but gives the
same analysis for all, and the model one asks a service and reads its reply.
-/

namespace QlikMigration.Vision

open Json (Value)
open Effect (printLine ask)

/-- An analyzer. -/
inductive Analyzer
  | trial
  | captioning
  | model
  deriving DecidableEq, Repr

/-- The theme an analyzer assumes where the analysis names none. -/
def Analyzer.defaultTheme : Analyzer → String
  | trial => "light"
  | captioning => "light"
  | model => "unknown"

/-- Why there is no analysis. -/
inductive AnalyzerError
  /-- There is no key for the model's service. -/
  | noKey
  /-- There is no picture at the path. -/
  | noPicture (path : String)
  /-- The file at the path is no picture. -/
  | notPicture (path : String)
  /-- The file at the path could not be opened. -/
  | file (cause : FileError)
  /-- The service could not be set up. -/
  | refused (text : String)
  /-- The model's answer, or the lack of one. -/
  | failed (text : String)
  deriving DecidableEq, Repr

/-- The wording of an analyzer's error. The path of what is no picture is shown from the
working directory. -/
def AnalyzerError.message (workingDirectory : String) : AnalyzerError → String
  | noKey => "Google API key not found. Set GOOGLE_API_KEY environment variable " ++
      "or pass api_key parameter. Get free key at: https://makersuite.google.com/app/apikey"
  | noPicture path => "Image not found: " ++ path
  | notPicture path => "cannot identify image file " ++
      Text.quote (workingDirectory ++ "/" ++ (FilePath.ofText path).text)
  | file cause => cause.message
  | refused text => text
  | failed text => "Gemini Vision analysis failed: " ++ text

/-- Opens the picture at a path and gives its size. -/
def openPicture (path : String) : Effect AnalyzerError (Nat × Nat) := do
  let directory := (← get).directory
  let place := FilePath.ofText path
  if !directory.has place then throw (.noPicture path)
  match directory.read place with
  | .ok (.picture width height) => return (width, height)
  | .ok _ => throw (.notPicture path)
  | .error cause => throw (.file cause)

/-- The analysis by a captioning model. -/
def analyzeByCaption (path : String) : Effect AnalyzerError Value := do
  if !(← get).directory.has (.ofText path) then throw (.noPicture path)
  printLine "Analyzing dashboard with Hugging Face (FREE, no API key)..."
  discard <| openPicture path
  return captionAnalysis

/-- The name of the model that is asked. -/
def modelName : String := "models/gemini-2.5-pro"

/-- What the model is asked. -/
def prompt : String := "\n".intercalate [
  "Analyze this dashboard image in detail and provide a structured JSON response.",
  "",
  "Identify and describe:",
  "1. All visual elements (charts, tables, cards, slicers, filters)",
  "2. For each visual:",
  "   - Type (bar_chart, line_chart, pie_chart, table, card, slicer, etc.)",
  "   - Approximate position (x, y as percentage of image width/height)",
  "   - Approximate size (width, height as percentage)",
  "   - Title or label",
  "   - Data fields visible (axis labels, column names, etc.)",
  "   - Colors used",
  "3. Page information (if multiple pages visible, tab names)",
  "4. Any filters or slicers",
  "5. Overall layout and theme",
  "",
  "Return ONLY valid JSON in this exact format:",
  "\x7b",
  "  \"pages\": [",
  "    \x7b",
  "      \"name\": \"Page 1\",",
  "      \"visuals\": [",
  "        \x7b",
  "          \"id\": \"visual_1\",",
  "          \"type\": \"bar_chart\",",
  "          \"position\": \x7b\"x\": 10, \"y\": 10, \"width\": 40, \"height\": 30\x7d,",
  "          \"title\": \"Sales by Region\",",
  "          \"data_fields\": [\"Region\", \"Sales Amount\"],",
  "          \"colors\": [\"#0078D4\", \"#50E6FF\"]",
  "        \x7d",
  "      ],",
  "      \"slicers\": [",
  "        \x7b",
  "          \"name\": \"Year Slicer\",",
  "          \"position\": \x7b\"x\": 5, \"y\": 5, \"width\": 15, \"height\": 10\x7d,",
  "          \"field\": \"Year\"",
  "        \x7d",
  "      ],",
  "      \"filters\": []",
  "    \x7d",
  "  ],",
  "  \"theme\": \"light\",",
  "  \"total_visuals\": 5",
  "\x7d"]

/-- Sets up the model's service with a key, given or from the environment, and gives back
the key. -/
def openModel (services : Services) (given : Option String) : Effect AnalyzerError String := do
  match chooseSecret given services.modelKey with
  | none => throw .noKey
  | some key =>
    ask services .refused (.configure key)
    ask services .refused (.chooseModel modelName)
    return key

/-- The analysis by the model. -/
def analyzeByModel (services : Services) (path : String) : Effect AnalyzerError Value := do
  let (width, height) ← openPicture path
  ask services .failed (.generate prompt width height)
  Effect.ofResult (fun cause => .failed cause.message) (readReply services.reply)

end QlikMigration.Vision
