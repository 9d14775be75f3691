import QlikMigration.Json.Form
import QlikMigration.Model.Basic

/-!
# Data models in a document

A data model can be given as a record with five members, each of which may be
left out. The steps of a table are read before the table itself, tables before
mappings, and mappings before relationships; the first record at fault is the
one that is reported. A step says by `operation` what it does, and an operation
of any other name is kept by name only.
-/

namespace QlikMigration

open QlikMigration.Json

/-- A column of a table. -/
def columnShape : Shape Column :=
  .record (fun value => do
    return {
      name := ← value.required "name" .text
      type := ← value.withDefault "data_type" (.word DataType.ofWord? .string) .string
      nullable := ← value.withDefault "nullable" .flag true
      isKey := ← value.withDefault "is_key" .flag false
      expression := ← value.maybe "source_expression" .text
      description := ← value.maybe "description" .text })
    { name := "" }

/-- What a step depends on. -/
def readDependencies (value : Value) : Audited (List String) :=
  value.withDefault "dependencies" (.list .text) []

/-- Reads a selection. -/
def readSelect (value : Value) : Audited Step := do
  let dependencies ← readDependencies value
  let table ← value.required "table_name" .text
  let source ← value.maybe "source_table" .text
  let columns ← value.withDefault "columns" (.list columnShape) []
  let distinct ← value.withDefault "is_distinct" .flag false
  return ⟨.select table source columns distinct, dependencies⟩

/-- Reads a filter. -/
def readFilter (value : Value) : Audited Step := do
  let dependencies ← readDependencies value
  let table ← value.required "table_name" .text
  let source ← value.required "source_table" .text
  let condition ← value.required "condition" .text
  return ⟨.filter table source condition, dependencies⟩

/-- Reads a join. -/
def readJoinStep (value : Value) : Audited Step := do
  let dependencies ← readDependencies value
  let table ← value.required "table_name" .text
  let left ← value.required "left_table" .text
  let right ← value.required "right_table" .text
  let kind ← value.required "join_type" .text
  let keys ← value.withDefault "join_keys" (.list .text) []
  let condition ← value.maybe "join_condition" .text
  return ⟨.join table left right kind keys condition, dependencies⟩

/-- Reads an aggregation. -/
def readAggregation (value : Value) : Audited Step := do
  let dependencies ← readDependencies value
  let table ← value.required "table_name" .text
  let source ← value.required "source_table" .text
  let grouping ← value.withDefault "group_by_columns" (.list .text) []
  let aggregations ← value.withDefault "aggregations" (.catalog .text) ∅
  return ⟨.aggregate table source grouping aggregations, dependencies⟩

/-- Reads a union. -/
def readUnion (value : Value) : Audited Step := do
  let dependencies ← readDependencies value
  let table ← value.required "table_name" .text
  let sources ← value.withDefault "source_tables" (.list .text) []
  return ⟨.union table sources, dependencies⟩

/-- Reads an operation that is only known by name. -/
def readOther (value : Value) : Audited Step := do
  let operation ← value.required "operation" .text
  let dependencies ← readDependencies value
  return ⟨.other operation, dependencies⟩

/-- Reads a step. -/
def readStep (value : Value) : Except RecordError Step :=
  match value.member? "operation" with
  | some (.text "select") => (readSelect value).accept "SelectTransformation"
  | some (.text "filter") => (readFilter value).accept "FilterTransformation"
  | some (.text "join") => (readJoinStep value).accept "JoinTransformation"
  | some (.text "aggregate") => (readAggregation value).accept "AggregationTransformation"
  | some (.text "union") => (readUnion value).accept "UnionTransformation"
  | _ => (readOther value).accept "Transformation"

/-- Reads a table, its steps first. -/
def readTable (value : Value) : Except RecordError Table := do
  let steps ← (value.itemsOf "transformations").mapM readStep
  let read : Audited Table := do
    return {
      name := ← value.required "name" .text
      columns := ← value.withDefault "columns" (.list columnShape) []
      primaryKeys := ← value.withDefault "primary_keys" (.list .text) []
      sourceType := ← value.withDefault "source_type" .text "external"
      sourcePath := ← value.maybe "source_path" .text
      steps := steps }
  read.accept "TableDefinition"

/-- Reads a mapping. -/
def readMappingDefinition (value : Value) : Except RecordError Mapping :=
  let read : Audited Mapping := do
    return {
      name := ← value.required "mapping_name" .text
      source := ← value.required "source_table" .text
      keyColumn := ← value.required "key_column" .text
      valueColumn := ← value.required "value_column" .text
      condition := ← value.maybe "filter_condition" .text }
  read.accept "MappingDefinition"

/-- Reads a relationship. -/
def readRelationship (value : Value) : Except RecordError Relationship :=
  let read : Audited Relationship := do
    return {
      fromTable := ← value.required "from_table" .text
      toTable := ← value.required "to_table" .text
      fromColumns := ← value.required "from_columns" (.list .text)
      toColumns := ← value.required "to_columns" (.list .text)
      kind := ← value.withDefault "relationship_type" .text "many_to_one" }
  read.accept "Relationship"

/-- Reads named entries, where a repeated name keeps its first place and its last
entry. -/
def readEntries {α : Type} (read : Value → Except RecordError α) (items : List Value) :
    Except RecordError (Catalog α) := do
  let entries ← items.filterMapM fun
    | .array [.text name, value] => do return some (name, ← read value)
    | _ => return none
  return .ofList entries

/-- Reads a data model. -/
def DataModel.ofDocument (value : Value) : Except RecordError DataModel := do
  let tables ← readEntries readTable (value.itemsOf "tables")
  let mappings ← readEntries readMappingDefinition (value.itemsOf "mappings")
  let relationships ← (value.itemsOf "relationships").mapM readRelationship
  let read : Audited DataModel := do
    return {
      tables, mappings, relationships
      bindings := ← value.withDefault "variables" (.catalog .text) ∅
      executionOrder := ← value.withDefault "execution_order" (.list .text) [] }
  read.accept "DataModel"

end QlikMigration
