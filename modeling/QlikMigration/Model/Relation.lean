import QlikMigration.Model.Basic

/-!
# Relationships

Two tables are related if they have a column name in common. The relationship
goes from the table that was defined first to the later one and is over all
their common names. A join without explicit keys uses the same names.
-/

namespace QlikMigration

/-- The column names that two tables have in common. Their order means nothing. -/
def commonColumns (a b : Table) : List String :=
  sortedNames (a.columnNames.filter b.columnNames.contains)

/-- The relationship between two tables, if they have a column name in common. -/
def relate? (a b : String × Table) : Option Relationship :=
  let columns := commonColumns a.2 b.2
  if columns.isEmpty then none
  else some { fromTable := a.1, toTable := b.1, fromColumns := columns, toColumns := columns }

/-- The relationships among listed tables, the earlier table of each first. -/
def relationshipsAmong : List (String × Table) → List Relationship
  | [] => []
  | table :: later => later.filterMap (relate? table) ++ relationshipsAmong later

/-- The relationships between the tables of a catalog. -/
def relationships (tables : Catalog Table) : List Relationship :=
  relationshipsAmong tables.entries

/-- The common column names of two tables that are known by name; none if one of them
is not known. -/
def joinKeys (tables : Catalog Table) (left right : String) : List String :=
  match tables.get? left, tables.get? right with
  | some a, some b => commonColumns a b
  | _, _ => []

end QlikMigration
