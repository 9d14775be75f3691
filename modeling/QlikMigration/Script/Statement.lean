/-!
# Statements of a load script

A load script assigns variables, defines mapping tables and loads tables. The
types here hold what a reader of the script learns from one statement; they say
nothing about how the text was written.
-/

namespace QlikMigration.Script

/-- Where the rows of a load come from. -/
inductive LoadKind
  | external
  | resident
  | inlined
  | mapping
  deriving DecidableEq, Repr

/-- The four ways to join a load to an earlier table. -/
inductive JoinKind
  | inner
  | left
  | right
  | outer
  deriving DecidableEq, Repr

/-- One entry of a field list. An expression is calculated if it has an operator, a
parenthesis or one of the common function names. -/
structure Field where
  expression : String
  givenName : Option String
  calculated : Bool
  deriving DecidableEq, Repr

/-- The join announced before a load. The keys are present only if they were given
explicitly. -/
structure Join where
  kind : JoinKind
  table : String
  keys : Option (List String)
  deriving DecidableEq, Repr

/-- The sort order announced after a load. -/
structure Ordering where
  fields : List String
  ascending : Bool
  deriving DecidableEq, Repr

/-- A table load. -/
structure Load where
  kind : LoadKind
  label : Option String
  fields : List Field
  source : Option String
  condition : Option String
  grouping : Option (List String)
  ordering : Option Ordering
  join : Option Join
  distinct : Bool
  rows : Option (List (List String))
  deriving DecidableEq, Repr

/-- A load of a two-column look-up table. -/
structure MappingLoad where
  name : String
  keyField : String
  valueField : String
  source : String
  condition : Option String
  deriving DecidableEq, Repr

/-- The assignment of a variable, by `LET` or by `SET`. -/
structure Assignment where
  name : String
  value : String
  evaluated : Bool
  deriving DecidableEq, Repr

/-- One statement of a load script. -/
inductive Statement
  | load (load : Load)
  | mapping (mapping : MappingLoad)
  | assign (assignment : Assignment)
  deriving DecidableEq, Repr

namespace LoadKind

/-- The word that names a kind of load in a data model. -/
def word : LoadKind → String
  | external => "external"
  | resident => "resident"
  | inlined => "inline"
  | mapping => "mapping"

/-- The kind of load that a word names. -/
def ofWord? : String → Option LoadKind
  | "external" => some external
  | "resident" => some resident
  | "inline" => some inlined
  | "mapping" => some mapping
  | _ => none

theorem ofWord?_word (kind : LoadKind) : ofWord? kind.word = some kind := by
  cases kind <;> rfl

end LoadKind

namespace JoinKind

/-- The word that names a kind of join in a data model. -/
def word : JoinKind → String
  | inner => "inner"
  | left => "left"
  | right => "right"
  | outer => "outer"

/-- The kind of join that a word names. -/
def ofWord? : String → Option JoinKind
  | "inner" => some inner
  | "left" => some left
  | "right" => some right
  | "outer" => some outer
  | _ => none

theorem ofWord?_word (kind : JoinKind) : ofWord? kind.word = some kind := by
  cases kind <;> rfl

end JoinKind

end QlikMigration.Script
