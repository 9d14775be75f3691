import QlikMigration.Json.Form
import QlikMigration.Script.Statement

/-!
# Statements in a document

Statements can also be given as records of a document. A record says by
`node_type` which statement it is; what it may leave out has a default. Members
that have no part in a data model, such as a preceding load, are read for their
faults only.
-/

namespace QlikMigration.Script

open QlikMigration.Json

/-- A field of a load. -/
def fieldShape : Shape Field :=
  .record (fun value => do
    return {
      expression := ← value.required "raw_expression" .text
      givenName := ← value.maybe "alias" .text
      calculated := ← value.withDefault "is_calculated" .flag false })
    ⟨"", none, false⟩

/-- The condition of a load. -/
def conditionShape : Shape String :=
  .record (fun value => value.required "condition" .text) ""

/-- The grouping of a load. -/
def groupingShape : Shape (List String) :=
  .record (fun value => value.required "fields" (.list .text)) []

/-- The ordering of a load. -/
def orderingShape : Shape Ordering :=
  .record (fun value => do
    return {
      fields := ← value.required "fields" (.list .text)
      ascending := ← value.withDefault "ascending" .flag true })
    ⟨[], true⟩

/-- The join of a load. -/
def joinShape : Shape Join :=
  .record (fun value => do
    return {
      kind := ← value.required "join_type" (.word JoinKind.ofWord? .inner)
      table := ← value.required "table_name" .text
      keys := ← value.maybe "on_fields" (.list .text) })
    ⟨.inner, "", none⟩

/-- What stands for a load that could not be read. -/
def blankLoad : Load :=
  ⟨.external, none, [], none, none, none, none, none, false, none⟩

/-- Reads a load whose preceding loads are nested no deeper than the given depth. -/
def readLoadRecord : Nat → Value → Audited Load
  | 0, _ => .sound blankLoad
  | depth + 1, value => do
    let kind ← value.required "load_type" (.word LoadKind.ofWord? .external)
    let label ← value.maybe "table_name" .text
    let fields ← value.withDefault "fields" (.list fieldShape) []
    let source ← value.maybe "source" .text
    let condition ← value.maybe "where_clause" conditionShape
    let grouping ← value.maybe "group_by" groupingShape
    let ordering ← value.maybe "order_by" orderingShape
    let join ← value.maybe "join_clause" joinShape
    let distinct ← value.withDefault "distinct" .flag false
    let _ ← value.maybe "preceding_load" (.record (readLoadRecord depth) blankLoad)
    let rows ← value.maybe "inline_data" (.list (.list .text))
    let _ ← value.withDefault "is_mapping" .flag false
    return { kind, label, fields, source, condition, grouping, ordering, join, distinct, rows }

/-- Reads a mapping load. -/
def readMappingRecord (value : Value) : Audited MappingLoad := do
  return {
    name := ← value.required "mapping_name" .text
    keyField := ← value.required "key_field" .text
    valueField := ← value.required "value_field" .text
    source := ← value.required "source" .text
    condition := ← value.maybe "where_clause" conditionShape }

/-- Reads a variable assignment. -/
def readAssignmentRecord (value : Value) : Audited Assignment := do
  return {
    name := ← value.required "variable_name" .text
    value := ← value.required "value" .text
    evaluated := ← value.withDefault "is_let" .flag true }

/-- How deeply loads may be nested in a record. -/
def nestingLimit : Nat := 1000

/-- Reads a statement. -/
def readStatementRecord (value : Value) : Except RecordError Statement :=
  match value.member? "node_type" with
  | some (.text "mapping_load") =>
    ((readMappingRecord value).accept "MappingLoad").map Statement.mapping
  | some (.text "variable") =>
    ((readAssignmentRecord value).accept "VariableAssignment").map Statement.assign
  | _ => ((readLoadRecord nestingLimit value).accept "LoadStatement").map Statement.load

end QlikMigration.Script
