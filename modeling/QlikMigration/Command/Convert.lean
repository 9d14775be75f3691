import QlikMigration.Conversion
import QlikMigration.Files.Lines
import QlikMigration.Json.Writer
import QlikMigration.Outside

/-!
# Converting a script file

The command reads a script from a file and writes the program and the semantic
model to two others. Their names come from the second argument, or else from the
name of the script, whose extension is replaced wherever it stands in the name.
A name without that extension is kept, so the three names need not differ.
-/

namespace QlikMigration.Command

open Effect (printLine look change outcome)

/-- Replaces a text wherever it stands in a name. -/
def renamed (name part replacement : String) : String :=
  String.ofList (Text.replace part.toList replacement.toList name.toList)

/-- The name of the program's file. -/
def programPath (input : String) : Option String → String
  | some output =>
    if ".py".toList.isSuffixOf output.toList then output else output ++ ".py"
  | none => renamed (renamed input ".qvs" "_output.py") ".txt" "_output.py"

/-- The name of the semantic model's file. -/
def modelPath (input : String) : Option String → String
  | some output => renamed output ".py" "_semantic.json"
  | none => renamed (renamed input ".qvs" "_semantic.json") ".txt" "_semantic.json"

/-- Why a script file was not converted. -/
inductive ConvertError
  | conversion (cause : ConversionError)
  | file (cause : FileError)
  deriving DecidableEq, Repr

/-- How a conversion error is told on the command line: a record that is refused is named. -/
def conversionNotice : ConversionError → String
  | .read .joinWithoutTable => "invalid JoinClause"
  | .build .residentWithoutSource => "invalid SelectTransformation"
  | cause => cause.message

/-- The line that tells an error. Whichever file was not found, the script is named. -/
def ConvertError.notice (input : String) : ConvertError → String
  | file (.notFound _) => "ERROR: File not found: " ++ input
  | file cause => "ERROR: " ++ cause.message
  | conversion cause => "ERROR: " ++ conversionNotice cause

/-- Converts a script file. -/
def convertFile (input : String) (output : Option String) : Effect ConvertError Unit := do
  printLine ("Reading Qlik script from: " ++ input)
  let script ← look .file (·.readText input)
  printLine "Parsing Qlik script..."
  let statements ← Effect.ofResult (fun cause => .conversion (.read cause))
    (Script.readScript script)
  printLine ("  Parsed " ++ toString statements.length ++ " statements")
  printLine "Transforming to internal representation..."
  let model ← Effect.ofResult (fun cause => .conversion (.build cause))
    (DataModel.ofStatements statements)
  printLine ("  Created " ++ toString model.tables.entries.length ++ " table(s)")
  printLine ("  Execution order: " ++ Text.quoteList model.executionOrder)
  printLine "Generating PySpark code..."
  let program ← Effect.ofResult (fun cause => .conversion (.program cause))
    (Spark.program .provided model)
  printLine "Generating semantic model..."
  let programFile := programPath input output
  let modelFile := modelPath input output
  change .file (·.writeName programFile (.text program))
  printLine ("\nPySpark code saved to: " ++ programFile)
  change .file (·.writeName modelFile (.text (Semantic.model model).pretty))
  printLine ("Semantic model saved to: " ++ modelFile)
  let rule := String.ofList (List.replicate 60 '=')
  printLine ("\n" ++ rule)
  printLine "CONVERSION COMPLETED SUCCESSFULLY!"
  printLine rule

/-- How the command is used. -/
def convertUsage : List String := [
  "Usage: python convert_qlik.py <input_file.qvs> [output_file.py]",
  "\nExamples:",
  "  python convert_qlik.py my_script.qvs",
  "  python convert_qlik.py my_script.qvs my_output.py"]

/-- The output argument: an empty one counts as absent. -/
def outputArgument : List String → Option String
  | output :: _ => if output == "" then none else some output
  | [] => none

/-- The command that converts a script file. It gives back its exit code. -/
def convertCommand (arguments : List String) : Effect ε Nat := do
  match arguments with
  | [] =>
    convertUsage.forM printLine
    return 1
  | input :: rest =>
    match ← outcome (convertFile input (outputArgument rest)) with
    | .ok () => return 0
    | .error cause =>
      printLine (cause.notice input)
      return 1

end QlikMigration.Command
