import QlikMigration.Text.Blank

/-!
# Converting function calls

A call of the script language becomes a call of the Spark library. Most
functions only change their name. A few wrap their first argument, and the
special functions have a rule of their own each; a special function without a
rule keeps its name. A function that is not known is written as it was called.

A name is looked up without the white space around it. Some rules need a first
argument, so a call without arguments can fail; a call with arguments cannot.
-/

namespace QlikMigration.Spark

open QlikMigration.Text

/-- What a known function becomes. -/
inductive Target
  /-- The same arguments under another name. -/
  | renamed (name : String)
  /-- The first argument between two texts. -/
  | wrapped (opening closing : String)
  deriving DecidableEq, Repr

/-- The functions that are converted by name. -/
def target? : String → Option Target
  | "Date" => some (.renamed "to_date")
  | "Today" => some (.renamed "current_date")
  | "Now" => some (.renamed "current_timestamp")
  | "Year" => some (.renamed "year")
  | "Month" => some (.renamed "month")
  | "Day" => some (.renamed "dayofmonth")
  | "Hour" => some (.renamed "hour")
  | "Minute" => some (.renamed "minute")
  | "Second" => some (.renamed "second")
  | "WeekDay" => some (.renamed "dayofweek")
  | "Week" => some (.renamed "weekofyear")
  | "Quarter" => some (.renamed "quarter")
  | "Upper" => some (.renamed "upper")
  | "Lower" => some (.renamed "lower")
  | "Trim" => some (.renamed "trim")
  | "LTrim" => some (.renamed "ltrim")
  | "RTrim" => some (.renamed "rtrim")
  | "Len" => some (.renamed "length")
  | "SubField" => some (.renamed "split")
  | "Left" => some (.renamed "substring")
  | "Right" => some (.renamed "substring")
  | "Mid" => some (.renamed "substring")
  | "Replace" => some (.renamed "regexp_replace")
  | "Capitalize" => some (.renamed "initcap")
  | "Concat" => some (.renamed "concat")
  | "Round" => some (.renamed "round")
  | "Floor" => some (.renamed "floor")
  | "Ceil" => some (.renamed "ceil")
  | "Abs" => some (.renamed "abs")
  | "Sqrt" => some (.renamed "sqrt")
  | "Pow" => some (.renamed "pow")
  | "Exp" => some (.renamed "exp")
  | "Log" => some (.renamed "log")
  | "Log10" => some (.renamed "log10")
  | "Mod" => some (.renamed "mod")
  | "Sum" => some (.renamed "sum")
  | "Count" => some (.renamed "count")
  | "Avg" => some (.renamed "avg")
  | "Min" => some (.renamed "min")
  | "Max" => some (.renamed "max")
  | "FirstValue" => some (.renamed "first")
  | "LastValue" => some (.renamed "last")
  | "If" => some (.renamed "when")
  | "Null" => some (.renamed "lit(None)")
  | "IsNull" => some (.renamed "isnull")
  | "Alt" => some (.renamed "coalesce")
  | "Num" => some (.wrapped "cast(" ", 'double')")
  | "Text" => some (.wrapped "cast(" ", 'string')")
  | "Dual" => some (.wrapped "" "")
  | _ => none

/-- The functions that take precedence over conversion by name. -/
def specialFunctions : List String :=
  ["AddMonths", "AddYears", "MonthStart", "MonthEnd", "YearStart", "YearEnd", "WeekStart",
   "WeekEnd", "MakeDate", "Timestamp", "Date#", "Timestamp#", "SubField", "TextBetween",
   "MapSubString", "If", "Pick", "Match", "WildMatch", "ApplyMap", "Lookup"]

/-- The functions that aggregate. -/
def aggregateFunctions : List String :=
  ["Sum", "Count", "Avg", "Min", "Max", "FirstValue", "LastValue"]

/-- Whether a function aggregates. The name is taken as it is. -/
def isAggregateFunction (name : String) : Bool :=
  aggregateFunctions.contains name

/-- A call. -/
def call (name : String) (args : List String) : String :=
  name ++ "(" ++ ", ".intercalate args ++ ")"

/-- A date pattern in the letters of the Spark library. -/
def datePattern : String → String
  | "YYYY-MM-DD" => "yyyy-MM-dd"
  | "MM/DD/YYYY" => "MM/dd/yyyy"
  | "DD/MM/YYYY" => "dd/MM/yyyy"
  | pattern => pattern

/-- A text without quotes of either kind around it. -/
def withoutQuotes (text : String) : String :=
  String.ofList (trimOf (fun c => c == '\'' || c == '"') text.toList)

/-- A special function with at least one argument. -/
def specialCall (name first : String) (rest : List String) : String :=
  match name, rest with
  | "AddMonths", second :: _ => call "add_months" [first, second]
  | "AddMonths", [] => call "add_months" [first, "0"]
  | "AddYears", second :: _ => call "add_months" [first, second ++ "*12"]
  | "AddYears", [] => call "add_months" [first, "0"]
  | "MonthStart", _ => call "trunc" [first, "'month'"]
  | "MonthEnd", _ => call "last_day" [first]
  | "YearStart", _ => call "trunc" [first, "'year'"]
  | "MakeDate", _ => call "make_date" (first :: rest.take 2)
  | "SubField", [] => call "split" [first, "','"]
  | "SubField", [second] => call "split" [first, second]
  | "SubField", second :: third :: _ => call "split" [first, second] ++ "[" ++ third ++ "-1]"
  | "If", [] => call "when" [first, "True"] ++ ".otherwise(False)"
  | "If", [second] => call "when" [first, second] ++ ".otherwise(None)"
  | "If", second :: third :: _ => call "when" [first, second] ++ call ".otherwise" [third]
  | "ApplyMap", _ => "# " ++ call "ApplyMap" (first :: rest)
  | "Lookup", _ => "# " ++ call "Lookup" (first :: rest)
  | "Date#", second :: _ | "Timestamp#", second :: _ =>
    call "to_date" [first, "'" ++ datePattern (withoutQuotes second) ++ "'"]
  | "Date#", [] | "Timestamp#", [] => call "to_date" [first]
  | _, _ => call name (first :: rest)

/-- A special function without arguments. Nothing comes of it if its rule needs one. -/
def specialBareCall? (name : String) : Option String :=
  match name with
  | "AddMonths" | "AddYears" | "SubField" | "If" | "Date#" | "Timestamp#" => none
  | "MonthStart" => some "trunc(current_date(), 'month')"
  | "MonthEnd" => some "last_day(current_date())"
  | "YearStart" => some "trunc(current_date(), 'year')"
  | "MakeDate" => some "make_date()"
  | "ApplyMap" => some "# ApplyMap()"
  | "Lookup" => some "# Lookup()"
  | _ => some (call name [])

/-- A name without white space around it. -/
def trimmedName (name : String) : String :=
  String.ofList (trim name.toList)

/-- A function that is not special. -/
def namedCall (name : String) (args : List String) : String :=
  match target? (trimmedName name) with
  | some (.renamed target) => call target args
  | some (.wrapped opening closing) => opening ++ args.headD "" ++ closing
  | none => call name args

/-- A call with at least one argument. -/
def functionCall (name first : String) (rest : List String) : String :=
  if specialFunctions.contains (trimmedName name) then
    specialCall (trimmedName name) first rest
  else
    namedCall name (first :: rest)

/-- Any call. Nothing comes of a call that needs an argument and has none. -/
def functionCall? (name : String) : List String → Option String
  | first :: rest => some (functionCall name first rest)
  | [] =>
    if specialFunctions.contains (trimmedName name) then specialBareCall? (trimmedName name)
    else some (namedCall name [])

end QlikMigration.Spark
