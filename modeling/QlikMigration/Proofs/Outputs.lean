import QlikMigration.Proofs.ExecutionOrder
import QlikMigration.Proofs.FileFormats
import QlikMigration.Proofs.Relationships
import QlikMigration.Proofs.StepChain

/-!
# The three outputs of a conversion

A conversion walks its model three times: the plan and the program follow the
execution order and pass over names that are no tables, while the semantic model
goes through the tables as they were defined. The outputs still describe one run,
because the execution order lists every table of a model that was built, each of
them once. So both walks along the order go through the same stages, one for each
name: a table, the step of the plan and the block of the program.

What a stage lists as dependencies and what the execution order respects is not
the same by definition, since the order also looks at the source of a resident
table. In a model that was built the source is listed, too.
-/

namespace QlikMigration

open QlikMigration.Script QlikMigration.Json

namespace Spark

/-! ## The lines around the blocks of the tables -/

/-- The imports of every program. -/
def imports : List String :=
  ["from pyspark.sql import SparkSession", "from pyspark.sql.functions import *",
    "from pyspark.sql.types import *"]

/-- The line that makes a session. -/
def sessionLine : String :=
  "spark = SparkSession.builder.appName('QlikConverter').getOrCreate()"

/-- The first lines of a program: a title, the imports and the session, which is left in a
comment if there is one already. -/
inductive Opens : Session → List String → Prop
  | provided : Opens .provided ("# Generated PySpark Code - Microsoft Fabric Compatible" ::
      imports ++ ["from pyspark.sql.window import Window", "",
        "# Initialize Spark session (if not already available in Fabric)",
        "# " ++ sessionLine, ""])
  | created : Opens .created ("# Generated PySpark Code" :: imports ++ ["", sessionLine, ""])

theorem opens_header (session : Session) : Opens session (header session) := by
  cases session with
  | provided => exact .provided
  | created => exact .created

/-- What a mapping is taken from: a file, which is read by its ending or else as text, or the
frame of a table if no known ending occurs in the source. -/
inductive TakenFrom (source : String) : String → Prop
  | file {reader : FileReader} (names : NamesFile source) (kept : reader ≠ .excel)
      (ends : reader.Ends source) : TakenFrom source (reader.expression source)
  | text (names : NamesFile source)
      (unknown : ∀ reader : FileReader, reader ≠ .excel → ¬ reader.Ends source) :
      TakenFrom source (FileReader.csv.expression source)
  | frame (unnamed : ¬ NamesFile source) : TakenFrom source (frameName source)

theorem exists_mappingSourceLine_eq (source frame : String) :
    ∃ taken, TakenFrom source taken ∧ mappingSourceLine source frame = frame ++ " = " ++ taken := by
  cases hreader : mappingReader? source with
  | none =>
      exact ⟨_, .frame (mappingReader?_eq_none_iff.mp hreader),
        (mappingSourceLine_eq_frame_iff source frame).mpr hreader⟩
  | some reader =>
      refine ⟨_, ?_, (mappingSourceLine_eq_iff source frame).mpr hreader⟩
      obtain ⟨hnames, ⟨hkept, hends⟩ | ⟨rfl, hunknown⟩⟩ := mappingReader?_eq_some_iff.mp hreader
      · exact .file hnames hkept hends
      · exact .text hnames hunknown

/-- The lines of a mapping: a title, its source, its two columns, its condition if it has one,
and the dictionary made of it. -/
def Maps (name : String) (mapping : Mapping) (lines : List String) : Prop :=
  ∃ taken, TakenFrom mapping.source taken ∧
    lines = ["# Mapping: " ++ name, "map_" ++ name ++ " = " ++ taken,
        "map_" ++ name ++ " = " ++ ("map_" ++ name) ++ ".select(" ++ quoted mapping.keyColumn ++
          ", " ++ quoted mapping.valueColumn ++ ")"] ++
      ((mapping.condition.toList.filter (· != "")).map fun condition =>
        "map_" ++ name ++ " = " ++ ("map_" ++ name) ++ ".filter(" ++ expressionText condition ++
          ")") ++
      ["map_" ++ name ++ "_dict = " ++ ("map_" ++ name) ++ ".rdd.collectAsMap()", ""]

theorem maps_mappingBlock (name : String) (mapping : Mapping) :
    Maps name mapping (mappingBlock name mapping ++ [""]) := by
  obtain ⟨taken, htaken, hline⟩ := exists_mappingSourceLine_eq mapping.source ("map_" ++ name)
  refine ⟨taken, htaken, ?_⟩
  rw [mappingBlock, hline]
  cases mapping.condition with
  | none => rfl
  | some condition => by_cases hempty : condition = "" <;> simp [hempty]

/-- The lines of the variables: none if there are no variables, and else a title, an assignment
for each of them and an empty line. -/
inductive Assigns (bindings : Catalog String) : List String → Prop
  | none (unbound : bindings.entries = []) : Assigns bindings []
  | block (bound : bindings.entries ≠ []) : Assigns bindings ("# Variables" ::
      (bindings.entries.map fun entry =>
        entry.1 ++ " = " ++ String.ofList (variableValue entry.2.toList)) ++ [""])

theorem assigns_variablesBlock (bindings : Catalog String) :
    Assigns bindings (variablesBlock bindings) := by
  rw [variablesBlock]
  split_ifs with hempty
  · exact .none (List.isEmpty_iff.mp hempty)
  · exact .block fun hnone => hempty (List.isEmpty_iff.mpr hnone)

/-- The lines of a program before the blocks of its tables and after them: first the opening,
the variables and the mappings in their order, and last a line for each name in the execution
order that shows its frame. -/
structure Surrounds (session : Session) (model : DataModel) (before after : List String) :
    Prop where
  before : ∃ opening assignments mappings, Opens session opening ∧
    Assigns model.bindings assignments ∧
    List.Forall₂ (fun entry lines => Maps entry.1 entry.2 lines) model.mappings.entries mappings ∧
    before = opening ++ assignments ++ mappings.flatten
  after : after = ["# Display results (optional)", "# Uncomment to view tables:"] ++
    model.executionOrder.map fun name => "# " ++ frameName name ++ ".show()"

/-- A program is the lines around the blocks of its tables and these blocks. -/
theorem exists_surrounds (session : Session) (model : DataModel) :
    ∃ before after, Surrounds session model before after ∧
      ∀ blocks, tableBlocks model = .ok blocks →
        program session model = .ok ("\n".intercalate (before ++ blocks.flatten ++ after)) := by
  refine ⟨_, _, ⟨⟨_, _, _, opens_header session, assigns_variablesBlock model.bindings,
    List.forall₂_map_right_iff.mpr (List.forall₂_same.mpr fun entry _ =>
      maps_mappingBlock entry.1 entry.2), rfl⟩, rfl⟩, fun blocks hblocks => ?_⟩
  rw [program, programLines, hblocks, ← List.flatMap_def]
  rfl

end Spark

/-! ## Stages -/

/-- One stage of a run: a table of a catalog with the number of its step in the plan and
its block in the program. -/
structure Stage (tables : Catalog Table) where
  number : Nat
  name : String
  table : Table
  block : List String
  found : tables.get? name = some table
  written : Spark.tableBlock table = .ok block

namespace Stage

variable {tables : Catalog Table}

/-- The step of the plan. -/
def step (stage : Stage tables) : PlanStep :=
  PlanStep.ofTable stage.number stage.name stage.table

/-- The lines of the program: the block and an empty line. -/
def lines (stage : Stage tables) : List String :=
  stage.block ++ [""]

theorem mem_dependencies {stage : Stage tables} {dependency : String} :
    dependency ∈ stage.step.dependencies ↔ dependency ∈ stage.table.stepDependencies :=
  mem_sortedNames

end Stage

/-- Names of tables that have their sources are the names of stages, and the plan and the
blocks of the program go through these stages. -/
theorem exists_stages {tables : Catalog Table}
    (hsourced : ∀ name table, tables.get? name = some table → table.Sourced)
    {names : List String} (hnames : ∀ name ∈ names, name ∈ tables.names) (number : Nat) :
    ∃ stages : List (Stage tables), stages.map Stage.name = names ∧
      stages.map Stage.number = List.range' number names.length ∧
      planFrom tables number names = stages.map Stage.step ∧
      (names.filterMap tables.get?).mapM (fun table => (Spark.tableBlock table).map (· ++ [""])) =
        .ok (stages.map Stage.lines) := by
  induction names generalizing number with
  | nil => exact ⟨[], rfl, rfl, rfl, rfl⟩
  | cons name names ih =>
      obtain ⟨table, htable⟩ := Catalog.exists_get?_of_mem_names (hnames name List.mem_cons_self)
      obtain ⟨block, hblock⟩ := Spark.exists_tableBlock (hsourced name table htable)
      obtain ⟨stages, hstages, hnumbers, hplan, hblocks⟩ :=
        ih (fun other hother => hnames other (List.mem_cons_of_mem name hother)) (number + 1)
      refine ⟨⟨number, name, table, block, htable, hblock⟩ :: stages, ?_, ?_, ?_, ?_⟩
      · rw [List.map_cons, hstages]
      · rw [List.map_cons, hnumbers]
        rfl
      · rw [planFrom, htable, List.map_cons, ← hplan]
        rfl
      · rw [List.filterMap_cons_some htable, List.mapM_cons, hblock, hblocks]
        rfl

/-- The execution order of a model that was built respects the dependencies. -/
theorem DataModel.topological_of_ofStatements {statements : List Statement} {model : DataModel}
    (h : DataModel.ofStatements statements = .ok model) :
    Topological model.tables model.executionOrder := by
  have hnonempty := DataModel.empty_not_mem_names h
  obtain ⟨taken, -, rfl⟩ := DataModel.ofStatements_eq_ok h
  exact topological_executionOrder hnonempty

/-- A model that was built has stages, one for each name in its execution order, and its
plan and its program are those of the stages. -/
theorem DataModel.exists_stages_of_ofStatements {statements : List Statement} {model : DataModel}
    (h : DataModel.ofStatements statements = .ok model) :
    ∃ stages : List (Stage model.tables), stages.map Stage.name = model.executionOrder ∧
      stages.map Stage.number = List.range' 1 model.executionOrder.length ∧
      model.plan = stages.map Stage.step ∧
      ∀ session, ∃ before after, Spark.Surrounds session model before after ∧
        Spark.program session model =
          .ok ("\n".intercalate (before ++ stages.flatMap Stage.lines ++ after)) := by
  have horder := DataModel.topological_of_ofStatements h
  obtain ⟨stages, hstages, hnumbers, hplan, hblocks⟩ :=
    exists_stages (DataModel.sourced_of_ofStatements h)
      (fun name hname => (horder.mem_iff name).mp hname) 1
  refine ⟨stages, hstages, hnumbers, hplan, fun session => ?_⟩
  obtain ⟨before, after, hsurrounds, hprogram⟩ := Spark.exists_surrounds session model
  refine ⟨before, after, hsurrounds, ?_⟩
  rw [hprogram _ hblocks, ← List.flatMap_def]

/-! ## Dependencies -/

/-- A plan lists a dependency in the step of a table. -/
def Lists (plan : List PlanStep) (name dependency : String) : Prop :=
  ∃ step ∈ plan, step.table = name ∧ dependency ∈ step.dependencies

/-- The steps of a resident table depend on its source. -/
def Table.DependsOnSource (table : Table) : Prop :=
  table.sourceType = "resident" → ∀ source, table.sourcePath = some source →
    source ∈ table.stepDependencies

theorem Builder.sourceType_of_tableOf {builder : Builder} {name : String} {load : Load}
    {table : Table} (h : builder.tableOf name load = .ok table) :
    table.sourceType = load.kind.word := by
  unfold tableOf originTable at h
  cases hkind : load.kind with
  | external | inlined | mapping =>
      rw [hkind] at h
      cases h
      rfl
  | resident =>
      cases hsource : load.source with
      | none =>
          rw [hkind, hsource] at h
          cases h
      | some source =>
          rw [hkind, hsource] at h
          cases h
          rfl

theorem Builder.dependsOnSource_of_tableOf {builder : Builder} {name : String} {load : Load}
    {table : Table} (h : builder.tableOf name load = .ok table) : table.DependsOnSource := by
  intro hresident path hpath
  have hword := (sourceType_of_tableOf h).symm.trans hresident
  unfold tableOf originTable at h
  cases hkind : load.kind with
  | external | inlined | mapping =>
      rw [hkind] at hword
      exact absurd hword (by decide)
  | resident =>
      cases hsource : load.source with
      | none =>
          rw [hkind, hsource] at h
          cases h
      | some source =>
          rw [hkind, hsource] at h
          cases h
          cases hpath
          exact List.mem_append_left _ List.mem_cons_self

/-- In a model that was built, every dependency of a table is one of its steps. -/
theorem DependsOn.mem_stepDependencies {statements : List Statement} {model : DataModel}
    (hmodel : DataModel.ofStatements statements = .ok model) {name dependency : String}
    {table : Table} (h : DependsOn model.tables name dependency)
    (htable : model.tables.get? name = some table) : dependency ∈ table.stepDependencies := by
  obtain ⟨found, hfound, hdepends⟩ := h
  obtain rfl : found = table := Option.some.inj (hfound.symm.trans htable)
  rcases hdepends with hstep | ⟨hresident, hpath⟩
  · exact List.mem_flatMap.mpr hstep
  · obtain ⟨taken, htaken, rfl⟩ := DataModel.ofStatements_eq_ok hmodel
    rcases Builder.get?_of_foldlM htaken htable with hempty | ⟨before, load, -, hdefined⟩
    · cases hempty
    · exact Builder.dependsOnSource_of_tableOf hdefined hresident dependency hpath

/-! ## Whole conversions -/

/-- A conversion that succeeds writes the program, the semantic model and the plan of one
model. -/
theorem convert_eq_ok {request : ConversionRequest} {conversion : Conversion}
    (h : convert request = .ok conversion) :
    ∃ model session text, DataModel.ofScript request.script = .ok model ∧
      request.session = some session ∧ Spark.program session model = .ok text ∧
      conversion = ⟨text, Semantic.model model, model.plan⟩ := by
  rw [convert] at h
  obtain ⟨model, hmodel, hrest⟩ := bind_eq_ok_iff.mp h
  cases hsession : request.session with
  | none =>
      rw [hsession] at hrest
      cases hrest
  | some session =>
      rw [hsession] at hrest
      dsimp only at hrest
      cases htext : Spark.program session model with
      | error cause =>
          rw [htext] at hrest
          cases hrest
      | ok text =>
          rw [htext] at hrest
          cases hrest
          exact ⟨model, session, text, hmodel, rfl, htext, rfl⟩

/-- Two images stand one before the other exactly if two members with these images do. -/
theorem pair_sublist_map_iff {α β : Type} {f : α → β} {first second : β} {items : List α} :
    List.Sublist [first, second] (items.map f) ↔
      ∃ a b, List.Sublist [a, b] items ∧ f a = first ∧ f b = second := by
  rw [List.sublist_map_iff]
  constructor
  · rintro ⟨pair, hpair, hmap⟩
    obtain ⟨a, rest, rfl, ha, hrest⟩ := List.map_eq_cons_iff.mp hmap.symm
    obtain ⟨b, none, rfl, hb, hnone⟩ := List.map_eq_cons_iff.mp hrest
    obtain rfl := List.map_eq_nil_iff.mp hnone
    exact ⟨a, b, hpair, ha, hb⟩
  · rintro ⟨a, b, hpair, rfl, rfl⟩
    exact ⟨[a, b], hpair, rfl⟩

section Stages

variable {session : Spark.Session} {model : DataModel} {stages : List (Stage model.tables)}

/-- Every table has a stage of its own. -/
theorem exists_stage_of_get? (hstages : stages.map Stage.name = model.executionOrder)
    (horder : Topological model.tables model.executionOrder) {name : String} {table : Table}
    (h : model.tables.get? name = some table) :
    ∃ stage ∈ stages, stage.name = name ∧ stage.table = table := by
  have hname : name ∈ stages.map Stage.name := by
    rw [hstages, horder.mem_iff]
    exact Catalog.mem_names_of_get? h
  obtain ⟨stage, hstage, rfl⟩ := List.mem_map.mp hname
  exact ⟨stage, hstage, rfl, Option.some.inj (stage.found.symm.trans h)⟩

/-- The plan of a run lists whatever a table of a model that was built depends on. -/
theorem DependsOn.lists {statements : List Statement}
    (hmodel : DataModel.ofStatements statements = .ok model)
    (hstages : stages.map Stage.name = model.executionOrder)
    (horder : Topological model.tables model.executionOrder) {name dependency : String}
    (h : DependsOn model.tables name dependency) :
    Lists (stages.map Stage.step) name dependency := by
  obtain ⟨table, htable, -⟩ := id h
  obtain ⟨stage, hstage, rfl, -⟩ := exists_stage_of_get? hstages horder htable
  exact ⟨stage.step, List.mem_map_of_mem hstage, rfl,
    Stage.mem_dependencies.mpr (h.mem_stepDependencies hmodel stage.found)⟩

end Stages

/-- A load of all columns from a file or a table. -/
def loadAll (kind : LoadKind) (label source : String) : Statement :=
  .load { kind, label := some label, fields := [⟨"*", none, false⟩], source := some source,
          condition := none, grouping := none, ordering := none, join := none,
          distinct := false, rows := none }

end QlikMigration
