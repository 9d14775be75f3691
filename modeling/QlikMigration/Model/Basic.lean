import QlikMigration.Catalog

/-!
# Data models

A data model is what a script says about tables, apart from how it says it: the
tables with their columns and the steps that produce them, the look-up mappings,
the relationships between tables, the variables, and an order in which the
tables can be computed. Kinds of source, join and relationship are kept as
words, because a model may also come from a document with words of its own.
-/

namespace QlikMigration

/-- The types that a column can have. -/
inductive DataType
  | string
  | integer
  | long
  | double
  | boolean
  | date
  | timestamp
  | decimal
  deriving DecidableEq, Repr

namespace DataType

/-- The word that names a data type. -/
def word : DataType → String
  | string => "string"
  | integer => "integer"
  | long => "long"
  | double => "double"
  | boolean => "boolean"
  | date => "date"
  | timestamp => "timestamp"
  | decimal => "decimal"

/-- The data type that a word names. -/
def ofWord? : String → Option DataType
  | "string" => some string
  | "integer" => some integer
  | "long" => some long
  | "double" => some double
  | "boolean" => some boolean
  | "date" => some date
  | "timestamp" => some timestamp
  | "decimal" => some decimal
  | _ => none

theorem ofWord?_word (type : DataType) : ofWord? type.word = some type := by
  cases type <;> rfl

end DataType

/-- A column of a table. A calculated column keeps its expression. -/
structure Column where
  name : String
  type : DataType := .string
  nullable : Bool := true
  isKey : Bool := false
  expression : Option String := none
  description : Option String := none
  deriving DecidableEq, Repr

/-- What a step does. -/
inductive Action
  | select (table : String) (source : Option String) (columns : List Column) (distinct : Bool)
  | filter (table source condition : String)
  | join (table left right kind : String) (keys : List String) (condition : Option String)
  | aggregate (table source : String) (grouping : List String) (aggregations : Catalog String)
  | union (table : String) (sources : List String)
  /-- An operation that is only known by name. -/
  | other (operation : String)
  deriving DecidableEq, Repr

/-- The word that names an action. -/
def Action.operation : Action → String
  | select .. => "select"
  | filter .. => "filter"
  | join .. => "join"
  | aggregate .. => "aggregate"
  | union .. => "union"
  | other operation => operation

/-- A step in the production of a table, with the tables or files it depends on. -/
structure Step where
  action : Action
  dependencies : List String
  deriving DecidableEq, Repr

/-- A table of a data model. -/
structure Table where
  name : String
  columns : List Column := []
  primaryKeys : List String := []
  sourceType : String := "external"
  sourcePath : Option String := none
  steps : List Step := []
  deriving DecidableEq, Repr

/-- A look-up mapping from a key column to a value column of a source. -/
structure Mapping where
  name : String
  source : String
  keyColumn : String
  valueColumn : String
  condition : Option String := none
  deriving DecidableEq, Repr

/-- A relationship between two tables over columns of the same names. -/
structure Relationship where
  fromTable : String
  toTable : String
  fromColumns : List String
  toColumns : List String
  kind : String := "many_to_one"
  deriving DecidableEq, Repr

/-- A data model. -/
structure DataModel where
  tables : Catalog Table := ∅
  mappings : Catalog Mapping := ∅
  relationships : List Relationship := []
  bindings : Catalog String := ∅
  executionOrder : List String := []
  deriving DecidableEq, Repr

namespace Table

/-- The names of the columns of a table. -/
def columnNames (table : Table) : List String :=
  table.columns.map Column.name

/-- What all steps of a table depend on, in order and with repetitions. -/
def stepDependencies (table : Table) : List String :=
  table.steps.flatMap Step.dependencies

end Table

/-- A text that is present and not empty. -/
def present? (text : Option String) : Option String :=
  text.filter (· != "")

/-- Names without repetition. In which order a set of names is listed is left open, except for
the tables of a schema; here it is always the order of their code points. -/
def sortedNames (names : List String) : List String :=
  names.eraseDups.mergeSort fun a b => decide (a ≤ b)

end QlikMigration
