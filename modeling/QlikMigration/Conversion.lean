import QlikMigration.Json.Form
import QlikMigration.Model.Build
import QlikMigration.Plan
import QlikMigration.Script.Reader
import QlikMigration.Semantic
import QlikMigration.Spark.Program
import QlikMigration.Text.Quoted

/-!
# Converting a script

A conversion reads a script, builds its data model and writes the program, the
semantic model and the execution plan. It is requested by a record; a request
whose options are null is accepted and then fails when the options are needed,
after the script has been read and the model built.
-/

namespace QlikMigration

open QlikMigration.Json

/-- A request for a conversion. No options means that they were given as null. -/
structure ConversionRequest where
  script : String
  session : Option Spark.Session
  deriving DecidableEq, Repr

/-- Why a conversion fails. -/
inductive ConversionError
  | read (cause : Script.ReadError)
  | build (cause : BuildError)
  | noOptions
  | program (cause : Spark.ProgramError)
  deriving DecidableEq, Repr

/-- The result of a conversion. -/
structure Conversion where
  program : String
  semanticModel : Value
  plan : List PlanStep

/-- The wording of a reading error. -/
def Script.ReadError.message : Script.ReadError → String
  | .joinWithoutTable => "JoinClause: table_name"
  | .unknownJoin words => Text.quote words ++ " is not a valid JoinType"

/-- The wording of a building error. -/
def BuildError.message : BuildError → String
  | .residentWithoutSource => "SelectTransformation: dependencies.0"

/-- The wording of a program error. -/
def Spark.ProgramError.message : Spark.ProgramError → String
  | .residentWithoutSource => "expected string or bytes-like object, got 'NoneType'"

/-- The wording of a conversion error. -/
def ConversionError.message : ConversionError → String
  | read cause => cause.message
  | build cause => cause.message
  | noOptions => "'NoneType' object has no attribute 'fabric_compatible'"
  | program cause => cause.message

/-- The session that the options of a request ask for. -/
def sessionShape : Shape Spark.Session :=
  .record (fun value => do
    let provided ← value.withDefault "fabric_compatible" .flag true
    let _ ← value.withDefault "include_comments" .flag true
    let _ ← value.withDefault "optimize_joins" .flag true
    return if provided then .provided else .created)
    .provided

/-- Reads a request. -/
def ConversionRequest.ofDocument (value : Value) : Except RecordError ConversionRequest :=
  let read : Audited ConversionRequest := do
    let script ← value.required "script" .text
    let _ ← value.withDefault "mode" .text "transformation"
    let session ← value.withDefault "options" sessionShape.optional (some .provided)
    return { script, session }
  read.accept "ConvertRequest"

/-- The data model of a script. -/
def DataModel.ofScript (script : String) : Except ConversionError DataModel :=
  match Script.readScript script with
  | .error cause => .error (.read cause)
  | .ok statements => (DataModel.ofStatements statements).mapError ConversionError.build

/-- Converts a script. -/
def convert (request : ConversionRequest) : Except ConversionError Conversion := do
  let model ← DataModel.ofScript request.script
  match request.session with
  | none => .error .noOptions
  | some session =>
    let program ← (Spark.program session model).mapError ConversionError.program
    return { program, semanticModel := Semantic.model model, plan := model.plan }

end QlikMigration
