import QlikMigration.Model.Expression
import QlikMigration.Model.Order
import QlikMigration.Model.Relation
import QlikMigration.Script.Statement

/-!
# Building a data model

Statements are taken in one after the other. A variable or mapping is put under
its name; a load defines a table under its label, or under a generated name if
it has none. After the last statement the execution order is computed anew and
the relationships found among all tables are added to those already there.

A builder can be used again with further statements. If a statement fails, what
the statements before it defined stays, and so does a name generated for it.

The keys of a join are looked up among the tables defined so far. A joined load
is not among them yet, so its keys are those of an earlier table of its name.
-/

namespace QlikMigration

open QlikMigration.Script

/-- Why a statement cannot be taken into a data model. -/
inductive BuildError
  /-- A resident load does not say which table it reads. -/
  | residentWithoutSource
  deriving DecidableEq, Repr

/-- A data model under construction, with the number of names generated so far. -/
structure Builder where
  model : DataModel := {}
  generated : Nat := 0
  deriving DecidableEq, Repr

/-- A failure, with the builder as the failure left it. -/
structure Stopped where
  builder : Builder
  cause : BuildError
  deriving DecidableEq, Repr

/-- The name of a field's column. -/
def Script.Field.columnName (field : Field) : String :=
  (present? field.givenName).getD (String.ofList (fieldName field.expression.toList))

/-- Whether a field stands for all columns. -/
def Script.Field.isStar (field : Field) : Bool :=
  field.expression == "*"

/-- The column of a field. -/
def Script.Field.column (field : Field) : Column :=
  { name := field.columnName
    type := inferType field.expression.toList
    expression := if field.calculated then some field.expression else none }

/-- The columns of the fields that are no stars. -/
def fieldColumns (fields : List Field) : List Column :=
  (fields.filter fun field => !field.isStar).map Field.column

/-- The columns that a resident load selects: a star brings in the columns of the
source and drops what was selected before it, if the source is known. -/
def selectedColumns (source? : Option Table) (fields : List Field) : List Column :=
  fields.foldl (fun columns field =>
    if field.isStar then (source?.map Table.columns).getD columns
    else columns ++ [field.column]) []

/-- The aggregations of a grouped load, by column name. -/
def aggregations (fields : List Field) : Catalog String :=
  Catalog.ofList ((fields.filter fun field => isAggregate field.expression.toList).map
    fun field => (field.columnName, field.expression))

namespace Builder

/-- The name of a load's table: its label, or else a generated name. -/
def nameFor (builder : Builder) (load : Load) : String × Builder :=
  match present? load.label with
  | some label => (label, builder)
  | none =>
    let count := builder.generated + 1
    ("Table" ++ toString count, { builder with generated := count })

/-- The table that the execution order so far ends with. -/
def previousTable (builder : Builder) : String :=
  builder.model.executionOrder.getLast?.getD "UnknownTable"

/-- The table of a load before joins, filters and groupings. -/
def originTable (builder : Builder) (name : String) (load : Load) : Except BuildError Table :=
  match load.kind with
  | .external =>
    .ok { name, sourceType := load.kind.word, sourcePath := load.source
          columns := fieldColumns load.fields }
  | .resident =>
    match load.source with
    | none => .error .residentWithoutSource
    | some source =>
      let columns := selectedColumns (builder.model.tables.get? source) load.fields
      .ok { name, sourceType := load.kind.word, sourcePath := source
            columns := fieldColumns load.fields
            steps := [⟨.select name source columns false, [source]⟩] }
  | .inlined =>
    let header := (load.rows.bind List.head?).getD []
    .ok { name, sourceType := load.kind.word, columns := header.map fun cell => { name := cell } }
  | .mapping => .ok { name, sourceType := load.kind.word }

/-- The step of a load's join. -/
def joinStep (builder : Builder) (name : String) (join : Join) : Step :=
  let left := if join.table == "" then builder.previousTable else join.table
  let keys := match join.keys with
    | some (key :: keys) => key :: keys
    | _ => joinKeys builder.model.tables left name
  ⟨.join name left name join.kind.word keys none, [left, name]⟩

/-- The steps of a load after its origin: join, filter, aggregation, distinct. -/
def laterSteps (builder : Builder) (name : String) (load : Load) (columns : List Column) :
    List Step :=
  let source := present? load.source
  (load.join.map (builder.joinStep name)).toList ++
    (load.condition.map fun condition =>
      { action := .filter name (source.getD name)
          (String.ofList (convertCondition condition.toList))
        dependencies := source.toList : Step }).toList ++
    (load.grouping.map fun grouping =>
      { action := .aggregate name (source.getD name) grouping (aggregations load.fields)
        dependencies := source.toList : Step }).toList ++
    (if load.distinct then [⟨.select name name columns true, [name]⟩] else [])

/-- The table that a load defines. -/
def tableOf (builder : Builder) (name : String) (load : Load) : Except BuildError Table :=
  (builder.originTable name load).map fun table =>
    { table with steps := table.steps ++ builder.laterSteps name load table.columns }

/-- Takes in a load. -/
def addLoad (builder : Builder) (load : Load) : Except Stopped Builder :=
  let (name, named) := builder.nameFor load
  match named.tableOf name load with
  | .ok table => .ok { named with model.tables := named.model.tables.put name table }
  | .error cause => .error ⟨named, cause⟩

/-- The mapping that a mapping load defines. -/
def mappingOf (load : MappingLoad) : Mapping :=
  { name := load.name
    source := load.source
    keyColumn := load.keyField
    valueColumn := load.valueField
    condition := load.condition }

/-- Takes in a statement. -/
def add (builder : Builder) : Statement → Except Stopped Builder
  | .assign assignment =>
    .ok { builder with
      model.bindings := builder.model.bindings.put assignment.name assignment.value }
  | .mapping load =>
    .ok { builder with model.mappings := builder.model.mappings.put load.name (mappingOf load) }
  | .load load => builder.addLoad load

/-- Computes the execution order and adds the relationships. -/
def finish (builder : Builder) : Builder :=
  { builder with
    model.executionOrder := executionOrder builder.model.tables
    model.relationships := builder.model.relationships ++ relationships builder.model.tables }

/-- Takes in statements and finishes the model. -/
def run (builder : Builder) (statements : List Statement) : Except Stopped Builder :=
  (statements.foldlM add builder).map finish

end Builder

/-- The data model of a list of statements. -/
def DataModel.ofStatements (statements : List Statement) : Except BuildError DataModel :=
  match Builder.run {} statements with
  | .ok builder => .ok builder.model
  | .error stopped => .error stopped.cause

end QlikMigration
