import QlikMigration.Model.Basic
import QlikMigration.Text.Casing

/-!
# Execution plans

A plan has one step for each table in execution order. A step is numbered by the
place of its table in the order, so a name in the order that is no table leaves
a gap in the numbers.
-/

namespace QlikMigration

/-- One step of an execution plan. -/
structure PlanStep where
  number : Nat
  table : String
  operation : String
  /-- What the table depends on. The order means nothing. -/
  dependencies : List String
  description : String
  deriving DecidableEq, Repr

namespace PlanStep

/-- The operation of a table: that of its first step, capitalized, or a load. -/
def operationOf (table : Table) : String :=
  match table.steps with
  | [] => "Load"
  | step :: _ => String.ofList (Text.capitalize step.action.operation.toList)

/-- What a step does, in words. A missing path shows as `None`. -/
def describe (name : String) (table : Table) : String :=
  let path := table.sourcePath.getD "None"
  if table.sourceType == "external" then "Load " ++ name ++ " from " ++ path
  else if table.sourceType == "resident" then "Transform " ++ path ++ " into " ++ name
  else if table.sourceType == "inline" then "Create " ++ name ++ " from inline data"
  else "Load " ++ name

/-- The step of a table. -/
def ofTable (number : Nat) (name : String) (table : Table) : PlanStep :=
  { number
    table := name
    operation := operationOf table
    dependencies := sortedNames table.stepDependencies
    description := describe name table }

end PlanStep

/-- The steps of names numbered from the given number on. -/
def planFrom (tables : Catalog Table) : Nat → List String → List PlanStep
  | _, [] => []
  | number, name :: names =>
    match tables.get? name with
    | some table => PlanStep.ofTable number name table :: planFrom tables (number + 1) names
    | none => planFrom tables (number + 1) names

/-- The execution plan of a data model. -/
def DataModel.plan (model : DataModel) : List PlanStep :=
  planFrom model.tables 1 model.executionOrder

end QlikMigration
