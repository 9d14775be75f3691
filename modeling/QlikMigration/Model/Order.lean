import QlikMigration.Model.Basic

/-!
# Execution order

Tables are computed after what they depend on. The order is the one in which a
depth-first walk through the dependencies leaves the tables, started from each
table in turn. Names that are no tables are passed over, a table does not wait
for itself, and in a cycle the table that the walk meets first comes last.

Each level of the walk enters a table that it has not met before, so its depth
is bounded by the number of tables.
-/

namespace QlikMigration

/-- How far a walk has come: the names met and the tables left, both latest first. -/
structure Walk where
  met : List String
  left : List String
  deriving DecidableEq, Repr

namespace Table

/-- What a table waits for: what its steps depend on, itself excepted, and the source
of a resident table. -/
def waitsFor (name : String) (table : Table) : List String :=
  table.stepDependencies.filter (· != name) ++
    match table.sourcePath with
    | some path => if table.sourceType == "resident" && path != "" then [path] else []
    | none => []

end Table

namespace Walk

/-- A walk that has met nothing. -/
def start : Walk := ⟨[], []⟩

/-- Visits a name with the given depth to spare. -/
def visit (tables : Catalog Table) : Nat → Walk → String → Walk
  | 0, walk, _ => walk
  | depth + 1, walk, name =>
    if walk.met.contains name then walk
    else
      let entered : Walk := { walk with met := name :: walk.met }
      match tables.get? name with
      | none => entered
      | some table =>
        let done := (table.waitsFor name).foldl (visit tables depth) entered
        { done with left := name :: done.left }

end Walk

/-- The names of the tables in an order in which they can be computed. -/
def executionOrder (tables : Catalog Table) : List String :=
  (tables.names.foldl (Walk.visit tables (tables.entries.length + 1)) Walk.start).left.reverse

end QlikMigration
