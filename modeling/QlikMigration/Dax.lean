import QlikMigration.Schema
import QlikMigration.Text.Digit
import QlikMigration.Text.Search
import QlikMigration.Text.Word

/-!
# Measures

A measure of the script language is one aggregation of a field, with an optional
set expression that filters other fields. It becomes a DAX formula in which each
field is prefixed by its table. Only the start of a formula is looked at: what
follows the closing parenthesis is ignored.

The filters of a set expression are separated at every comma, also inside the
braces of a value list. So a list of several values falls apart, and only what
is a whole filter by itself counts.
-/

namespace QlikMigration.Dax

open QlikMigration.Text

/-- Why a measure cannot be converted. -/
inductive DaxError
  | emptyFormula
  | invalidSyntax
  | unsupportedFunction (name : String)
  | unknownField (name : String)
  | unknownFilterField (name : String)
  deriving DecidableEq, Repr

/-- The wording of an error. -/
def DaxError.message : DaxError → String
  | emptyFormula => "Empty formula"
  | invalidSyntax => "Invalid Qlik syntax"
  | unsupportedFunction name => "Unsupported function: " ++ name
  | unknownField name => "Field '" ++ name ++ "' not found in schema"
  | unknownFilterField name => "Filter field '" ++ name ++ "' not found in schema"

/-- An aggregation as it is written: function, set expression and field. -/
structure Measure where
  function : String
  filters : Option String
  field : String
  deriving DecidableEq, Repr

/-- The text of a set expression and what follows it and the white space behind it. -/
def setExpression? (cs : List Char) : Option (List Char × List Char) := do
  let body ← ['{', '<'].isPrefixOf? cs
  let filters := body.takeWhile (· != '>')
  let rest ← ['>', '}'].isPrefixOf? (body.dropWhile (· != '>'))
  if filters.isEmpty then none else some (filters, skipBlanks rest)

/-- Reads the field and the closing parenthesis. -/
def closingField? (cs : List Char) : Option (List Char) :=
  if startsWord cs && [')'].isPrefixOf (skipBlanks (afterWordRun cs)) then some (wordRun cs)
  else none

/-- Reads the aggregation at the start of a formula. -/
def readMeasure? (cs : List Char) : Option Measure := do
  let body ← ['('].isPrefixOf? (afterWordRun cs)
  let inner := skipBlanks body
  if startsWord cs then
    match setExpression? inner with
    | some (filters, rest) =>
      let field ← closingField? rest
      some ⟨String.ofList (wordRun cs), some (String.ofList filters), String.ofList field⟩
    | none =>
      let field ← closingField? inner
      some ⟨String.ofList (wordRun cs), none, String.ofList field⟩
  else none

/-- The DAX name of a function. -/
def function? : String → Option String
  | "Sum" => some "SUM"
  | "Avg" => some "AVERAGE"
  | "Count" => some "COUNT"
  | "Min" => some "MIN"
  | "Max" => some "MAX"
  | _ => none

/-- A filter value without white space and then without quotes around it. -/
def filterValue (cs : List Char) : String :=
  String.ofList (trimOf (fun c => c == '\'' || c == '"') (trim cs))

/-- Reads one filter: a field, an equals sign and values in braces. -/
def readFilter? (part : List Char) : Option (String × List String) := do
  let body ← ['=', '{'].isPrefixOf? (afterWordRun part)
  let values := body.takeWhile (· != '}')
  if startsWord part && !values.isEmpty && ['}'].isPrefixOf (body.dropWhile (· != '}')) then
    some (String.ofList (wordRun part), (List.splitOn ',' values).map filterValue)
  else none

/-- The filters of a set expression by field. What is no filter is passed over. -/
def readFilters (filters : String) : Catalog (List String) :=
  Catalog.ofList ((List.splitOn ',' filters.toList).filterMap fun part => readFilter? (trim part))

/-- A value in a formula: digits as they are, anything else in double quotes. -/
def valueText (value : String) : String :=
  if isDigits value.toList then value else "\"" ++ value ++ "\""

/-- A field with its table. -/
def fieldText (table field : String) : String :=
  table ++ "[" ++ field ++ "]"

/-- The condition of a filter. -/
def conditionText (table field : String) : List String → String
  | [value] => fieldText table field ++ " = " ++ valueText value
  | values =>
    fieldText table field ++ " IN \x7b" ++ ", ".intercalate (values.map valueText) ++ "\x7d"

/-- The table that a field is found in. An empty name counts as none. -/
def table? (schema : Schema) (field : String) : Option String :=
  present? (schema.tableOf? field)

/-- The conditions of filters. -/
def conditions (schema : Schema) (filters : List (String × List String)) :
    Except DaxError (List String) :=
  filters.mapM fun (field, values) =>
    match table? schema field with
    | none => .error (.unknownFilterField field)
    | some table => .ok (conditionText table field values)

/-- The formula of a measure. -/
def Measure.formula (schema : Schema) (measure : Measure) : Except DaxError String :=
  match function? measure.function with
  | none => .error (.unsupportedFunction measure.function)
  | some function =>
    match table? schema measure.field with
    | none => .error (.unknownField measure.field)
    | some table =>
      let aggregation := function ++ "(" ++ fieldText table measure.field ++ ")"
      match measure.filters with
      | none => .ok aggregation
      | some filters =>
        (conditions schema (readFilters filters).entries).map fun conditions =>
          "CALCULATE(" ++ aggregation ++ ", " ++ ", ".intercalate conditions ++ ")"

/-- Converts a formula to DAX. -/
def convert (schema : Schema) (formula : String) : Except DaxError String :=
  let cs := trim formula.toList
  if cs.isEmpty then .error .emptyFormula
  else
    match readMeasure? cs with
    | none => .error .invalidSyntax
    | some measure => measure.formula schema

end QlikMigration.Dax
