import QlikMigration.Model.Basic
import QlikMigration.Spark.Expression

/-!
# Spark programs

The program of a data model is a list of lines: a header, the variables, a block
for each mapping, a block for each table in execution order, and a footer that
names every data frame. A block ends with an empty line. Reading a file is
chosen by the ending of its path.

A table that reads another table has to say which one; this is the only way in
which writing a program can fail.
-/

namespace QlikMigration.Spark

/-- Why a program cannot be written. -/
inductive ProgramError
  /-- A resident table has no source. -/
  | residentWithoutSource
  deriving DecidableEq, Repr

/-- How a program starts: with a session that is already there, or with its own. -/
inductive Session
  | provided
  | created
  deriving DecidableEq, Repr

/-- The first lines of a program. -/
def header : Session → List String
  | .provided =>
    ["# Generated PySpark Code - Microsoft Fabric Compatible",
     "from pyspark.sql import SparkSession",
     "from pyspark.sql.functions import *",
     "from pyspark.sql.types import *",
     "from pyspark.sql.window import Window",
     "",
     "# Initialize Spark session (if not already available in Fabric)",
     "# spark = SparkSession.builder.appName('QlikConverter').getOrCreate()",
     ""]
  | .created =>
    ["# Generated PySpark Code",
     "from pyspark.sql import SparkSession",
     "from pyspark.sql.functions import *",
     "from pyspark.sql.types import *",
     "",
     "spark = SparkSession.builder.appName('QlikConverter').getOrCreate()",
     ""]

/-- An expression in the program's language. -/
def expressionText (expression : String) : String :=
  String.ofList (convertExpression expression.toList)

/-- A text in single quotes, with nothing escaped. -/
def quoted (text : String) : String :=
  "'" ++ text ++ "'"

/-- A column by name. -/
def columnText (name : String) : String :=
  "col(" ++ quoted name ++ ")"

/-- An expression under a column name. -/
def aliasText (expression name : String) : String :=
  expressionText expression ++ ".alias(" ++ quoted name ++ ")"

/-! ### Reading files -/

/-- The ways to read a file. -/
inductive FileReader
  | csv
  | parquet
  | json
  | excel
  deriving DecidableEq, Repr

/-- Whether a path has an ending. Endings are compared in the case they are given. -/
def pathEndsWith (path ending : String) : Bool :=
  ending.toList.isSuffixOf path.toList

/-- Whether a path has a part. -/
def pathContains (path part : String) : Bool :=
  Text.contains part.toList path.toList

/-- The expression that reads a file. -/
def FileReader.expression (path : String) : FileReader → String
  | .csv => "spark.read.csv(" ++ quoted path ++ ", header=True, inferSchema=True)"
  | .parquet => "spark.read.parquet(" ++ quoted path ++ ")"
  | .json => "spark.read.json(" ++ quoted path ++ ")"
  | .excel => "spark.read.format('excel').load(" ++ quoted path ++ ")"

/-- The reader for a table's file. A path with an unknown ending is read as text. -/
def tableReader (path : String) : FileReader :=
  if pathEndsWith path ".csv" || pathEndsWith path ".txt" then .csv
  else if pathEndsWith path ".parquet" then .parquet
  else if pathEndsWith path ".json" then .json
  else if pathEndsWith path ".xlsx" || pathEndsWith path ".xls" then .excel
  else .csv

/-- The reader for a mapping's source; none if the source is a table. A source counts
as a file if a known ending occurs anywhere in it. -/
def mappingReader? (source : String) : Option FileReader :=
  if [".csv", ".txt", ".parquet", ".json"].any (pathContains source) then
    if pathEndsWith source ".csv" || pathEndsWith source ".txt" then some .csv
    else if pathEndsWith source ".parquet" then some .parquet
    else if pathEndsWith source ".json" then some .json
    else some .csv
  else none

/-- The line that gives a mapping's data frame its source. -/
def mappingSourceLine (source frame : String) : String :=
  frame ++ " = " ++ match mappingReader? source with
    | some reader => reader.expression source
    | none => frameName source

/-- The line that reads a table from its file. -/
def externalLine (table : Table) (frame : String) : String :=
  let path := match table.sourcePath with
    | some path => if path == "" then "data.csv" else path
    | none => "data.csv"
  frame ++ " = " ++ (tableReader path).expression path

/-- The line that takes a table from another. -/
def residentLine (table : Table) (frame : String) : Except ProgramError String :=
  match table.sourcePath with
  | some source => .ok (frame ++ " = " ++ frameName source)
  | none => .error .residentWithoutSource

/-- The Spark type of a data type. -/
def sparkType : DataType → String
  | .string => "StringType()"
  | .integer => "IntegerType()"
  | .long => "LongType()"
  | .double => "DoubleType()"
  | .boolean => "BooleanType()"
  | .date => "DateType()"
  | .timestamp => "TimestampType()"
  | .decimal => "DecimalType()"

/-- The entry of a column in a schema. -/
def schemaField (column : Column) : String :=
  "StructField(" ++ quoted column.name ++ ", " ++ sparkType column.type ++ ", " ++
    (if column.nullable then "True" else "False") ++ ")"

/-- The lines that set up an inline table. Its rows are left to be filled in. -/
def inlineLines (table : Table) (frame : String) : List String :=
  [frame ++ "_schema = StructType([" ++ ", ".intercalate (table.columns.map schemaField) ++ "])",
   frame ++ "_data = []  # Add inline data here",
   frame ++ " = spark.createDataFrame(" ++ frame ++ "_data, " ++ frame ++ "_schema)"]

/-! ### Steps -/

/-- The expression of a selected column. -/
def selectedText (column : Column) : String :=
  match column.expression with
  | some expression =>
    if expression == "" then columnText column.name else aliasText expression column.name
  | none => columnText column.name

/-- The condition of a join: equality of its keys, else its own condition, else true. -/
def joinCondition (left right : String) (keys : List String) (condition : Option String) :
    String :=
  match keys, condition with
  | [], some condition => if condition == "" then "True" else expressionText condition
  | [], none => "True"
  | keys, _ =>
    " & ".intercalate (keys.map fun key =>
      "(" ++ left ++ "[" ++ quoted key ++ "] == " ++ right ++ "[" ++ quoted key ++ "])")

/-- The lines of a step in the block of a data frame. -/
def stepLines (frame : String) : Action → List String
  | .select _ _ columns distinct =>
    if distinct then [frame ++ " = " ++ frame ++ ".distinct()"]
    else if columns.isEmpty then []
    else [frame ++ " = " ++ frame ++ ".select(" ++
        ", ".intercalate (columns.map selectedText) ++ ")"]
  | .filter _ _ condition =>
    [frame ++ " = " ++ frame ++ ".filter(" ++ expressionText condition ++ ")"]
  | .join _ left right kind keys condition =>
    let leftFrame := frameName left
    let rightFrame := frameName right
    [frame ++ " = " ++ leftFrame ++ ".join(" ++ rightFrame ++ ", " ++
      joinCondition leftFrame rightFrame keys condition ++ ", " ++ quoted kind ++ ")"]
  | .aggregate _ source grouping aggregations =>
    [frame ++ " = " ++ frameName source ++ ".groupBy(" ++
      ", ".intercalate (grouping.map columnText) ++ ").agg(" ++
      ", ".intercalate (aggregations.entries.map fun entry => aliasText entry.2 entry.1) ++ ")"]
  | .union .. => []
  | .other _ => []

/-! ### Blocks -/

/-- The lines that set up a table's data frame. -/
def sourceLines (table : Table) (frame : String) : Except ProgramError (List String) :=
  if table.sourceType == "external" then .ok [externalLine table frame]
  else if table.sourceType == "resident" then (residentLine table frame).map fun line => [line]
  else if table.sourceType == "inline" then .ok (inlineLines table frame)
  else .ok []

/-- The block of a table. -/
def tableBlock (table : Table) : Except ProgramError (List String) :=
  let frame := frameName table.name
  (sourceLines table frame).map fun lines =>
    ("# Table: " ++ table.name) :: lines ++
      table.steps.flatMap fun step => stepLines frame step.action

/-- The block of a mapping. -/
def mappingBlock (name : String) (mapping : Mapping) : List String :=
  let frame := "map_" ++ name
  ["# Mapping: " ++ name,
   mappingSourceLine mapping.source frame,
   frame ++ " = " ++ frame ++ ".select(" ++ quoted mapping.keyColumn ++ ", " ++
     quoted mapping.valueColumn ++ ")"] ++
    (match mapping.condition with
      | some condition =>
        if condition == "" then []
        else [frame ++ " = " ++ frame ++ ".filter(" ++ expressionText condition ++ ")"]
      | none => []) ++
    [frame ++ "_dict = " ++ frame ++ ".rdd.collectAsMap()"]

/-- The block of the variables; empty if there are none. -/
def variablesBlock (bindings : Catalog String) : List String :=
  if bindings.entries.isEmpty then []
  else
    "# Variables" :: (bindings.entries.map fun entry =>
      entry.1 ++ " = " ++ String.ofList (variableValue entry.2.toList)) ++ [""]

/-- The last lines of a program. -/
def footer (executionOrder : List String) : List String :=
  ["# Display results (optional)", "# Uncomment to view tables:"] ++
    executionOrder.map fun name => "# " ++ frameName name ++ ".show()"

/-- The blocks of the tables in execution order. Names that are no tables have none. -/
def tableBlocks (model : DataModel) : Except ProgramError (List (List String)) :=
  (model.executionOrder.filterMap model.tables.get?).mapM fun table =>
    (tableBlock table).map (· ++ [""])

/-- The lines of the program of a data model. -/
def programLines (session : Session) (model : DataModel) : Except ProgramError (List String) :=
  (tableBlocks model).map fun blocks =>
    header session ++ variablesBlock model.bindings ++
      (model.mappings.entries.flatMap fun entry => mappingBlock entry.1 entry.2 ++ [""]) ++
      blocks.flatten ++ footer model.executionOrder

/-- The program of a data model. -/
def program (session : Session) (model : DataModel) : Except ProgramError String :=
  (programLines session model).map ("\n".intercalate ·)

end QlikMigration.Spark
