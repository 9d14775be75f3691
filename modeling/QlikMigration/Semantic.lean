import QlikMigration.Json.Value
import QlikMigration.Model.Basic
import QlikMigration.Text.Casing
import QlikMigration.Text.Cut

/-!
# Semantic models

A semantic model is the document that describes a data model to a reporting
tool: its tables with their columns, the relationships, one measure for each
aggregation, and the execution order. A relationship over several columns is
described by the first of them, and lists them all besides.
-/

namespace QlikMigration.Semantic

open QlikMigration.Json

/-- Whether a path in lower case has an ending. -/
def hasEnding (path : List Char) (ending : String) : Bool :=
  ending.toList.isSuffixOf path

/-- The format of a file by the ending of its path, in any case. -/
def fileFormat (path : Option String) : String :=
  let lowered := Text.lowerAscii (path.getD "").toList
  if hasEnding lowered ".csv" || hasEnding lowered ".txt" then "csv"
  else if hasEnding lowered ".parquet" then "parquet"
  else if hasEnding lowered ".json" then "json"
  else if hasEnding lowered ".xlsx" || hasEnding lowered ".xls" then "excel"
  else "unknown"

/-- The cardinality of a kind of relationship. An unknown kind counts as one to many. -/
def cardinality : String → String
  | "one_to_one" => "1:1"
  | "one_to_many" => "1:*"
  | "many_to_one" => "*:1"
  | "many_to_many" => "*:*"
  | _ => "1:*"

/-- A column. -/
def column (column : Column) : Value :=
  let expression := column.expression.filter (· != "")
  let description := column.description.filter (· != "")
  .object (
    [("name", .text column.name), ("dataType", .text column.type.word),
     ("nullable", .bool column.nullable), ("isKey", .bool column.isKey)] ++
    (match expression with
      | some text => [("expression", .text text), ("isCalculated", .bool true)]
      | none => [("isCalculated", .bool false)]) ++
    (match description with
      | some text => [("description", .text text)]
      | none => []))

/-- The source of a table. Only a file has a format. -/
def source (table : Table) : Value :=
  .object (
    [("type", .text table.sourceType), ("path", .ofText? table.sourcePath)] ++
    if table.sourceType == "external" then
      [("format", .text (fileFormat table.sourcePath))]
    else [])

/-- A table under its name. -/
def table (entry : String × Table) : Value :=
  .object
    [("name", .text entry.1), ("source", source entry.2),
     ("columns", .array (entry.2.columns.map column)),
     ("primaryKey", .ofTexts entry.2.primaryKeys)]

/-- A relationship. -/
def relationship (relationship : Relationship) : Value :=
  .object (
    [("name", .text (relationship.fromTable ++ "_to_" ++ relationship.toTable)),
     ("fromTable", .text relationship.fromTable),
     ("fromColumn", .ofText? relationship.fromColumns.head?),
     ("toTable", .text relationship.toTable),
     ("toColumn", .ofText? relationship.toColumns.head?),
     ("cardinality", .text (cardinality relationship.kind)),
     ("crossFilterDirection", .text "single"),
     ("isActive", .bool true)] ++
    if 1 < relationship.fromColumns.length then
      [("fromColumns", .ofTexts relationship.fromColumns),
       ("toColumns", .ofTexts relationship.toColumns)]
    else [])

/-- The measure of an aggregation. -/
def measure (table : String) (aggregation : String × String) : Value :=
  .object
    [("name", .text (table ++ "_" ++ aggregation.1)), ("expression", .text aggregation.2),
     ("table", .text table), ("dataType", .text "double"), ("formatString", .text "#,##0.00")]

/-- The aggregations of a step. -/
def stepAggregations : Action → Catalog String
  | .aggregate _ _ _ aggregations => aggregations
  | _ => ∅

/-- The measures of a table. -/
def measures (entry : String × Table) : List Value :=
  entry.2.steps.flatMap fun step => (stepAggregations step.action).entries.map (measure entry.1)

/-- The semantic model of a data model. -/
def model (model : DataModel) : Value :=
  .object
    [("name", .text "QlikConvertedModel"),
     ("description", .text "Semantic model generated from Qlik script"),
     ("version", .text "1.0"),
     ("tables", .array (model.tables.entries.map table)),
     ("relationships", .array (model.relationships.map relationship)),
     ("measures", .array (model.tables.entries.flatMap measures)),
     ("metadata", .object
       [("source", .text "Qlik Data Load Script"),
        ("execution_order", .ofTexts model.executionOrder)])]

end QlikMigration.Semantic
