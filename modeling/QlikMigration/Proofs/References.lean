import QlikMigration.Proofs.Outputs
import QlikMigration.Proofs.Provenance

/-!
# References to variables stay as they are

A variable that is assigned in a script is stored under its name, and that is all
that happens to it. Reading the statements behind an assignment does not look at
the variables, so a reference `$(name)` in the source or the condition of a load
is plain text: it goes into the table as it stands, and from there into the
program, or it ends a path that has no brackets. Another value leaves everything
but the variables of the model and their block in the program as it was, and the
script with the references replaced has other tables.

An assignment stands at the start of a line here, where the statements before it
are complete and the line is not one that reading passes over.
-/

namespace QlikMigration

open QlikMigration.Text QlikMigration.Script

namespace Script

/-! ## Cutting a script -/

/-- The lines of a text without comments and white space around them, blank lines left
out. -/
def cleanedLines (cs : List Char) : List (List Char) :=
  ((List.splitOn '\n' cs).map cleanLine).filter fun line => !line.isEmpty

/-- Texts with a line end between them have the lines of both. -/
theorem cleanedLines_append {front : List Char}
    (hfront : front = [] ∨ ∃ text, front = text ++ ['\n']) (rest : List Char) :
    cleanedLines (front ++ rest) = cleanedLines front ++ cleanedLines rest := by
  rcases hfront with rfl | ⟨text, rfl⟩
  · rfl
  · have hnone : cleanedLines [] = [] := rfl
    have hcut : ∀ later, cleanedLines (text ++ '\n' :: later) =
        cleanedLines text ++ cleanedLines later := by
      intro later
      rw [cleanedLines, List.splitOn_append_cons_self, List.map_append, List.filter_append]
      rfl
    rw [List.append_assoc, List.singleton_append, hcut, hcut, hnone, List.append_nil]

/-- Lines of which the last ends a statement are gathered apart from later ones. -/
theorem gather_append {lines : List (List Char)}
    (h : ∀ line ∈ lines.getLast?, line.getLast? = some ';') (later : List (List Char)) :
    gather [] (lines ++ later) = gather [] lines ++ gather [] later := by
  have hpending : ∀ (lines : List (List Char)) (pending : List Char), lines ≠ [] →
      (∀ line ∈ lines.getLast?, line.getLast? = some ';') →
        gather pending (lines ++ later) = gather pending lines ++ gather [] later := by
    intro lines
    induction lines with
    | nil => exact fun _ hne => absurd rfl hne
    | cons line lines ih =>
        intro pending _ hlast
        rw [List.cons_append]
        cases lines with
        | nil =>
            have hends : line.getLast? = some ';' := hlast line rfl
            rw [gather_cons_of_endsWith hends, gather_cons_of_endsWith hends]
            rfl
        | cons next lines =>
            have hrest := fun pending => ih pending (List.cons_ne_nil next lines) hlast
            by_cases hends : line.getLast? = some ';'
            · rw [gather_cons_of_endsWith hends, gather_cons_of_endsWith hends, hrest,
                List.cons_append]
            · rw [gather_cons_of_not_endsWith hends, gather_cons_of_not_endsWith hends, hrest]
  cases lines with
  | nil => rfl
  | cons line lines => exact hpending _ [] (List.cons_ne_nil line lines) h

/-! ## Assignments -/

/-- The line that sets a variable. -/
def assignmentText (name value : String) : List Char :=
  ['S', 'E', 'T', ' '] ++ (name.toList ++ ([' ', '=', ' '] ++ (value.toList ++ [';'])))

/-- A name and a value that can be written in the line of an assignment: the name is a word,
the value stands on one line, has no semicolon and no white space around it, and no comment
is cut from the line. -/
structure Settable (name value : String) : Prop where
  named : name.toList ≠ []
  word : ∀ c ∈ name.toList, isWord c = true
  solid : Solid value.toList
  closed : ';' ∉ value.toList
  uncommented : cleanLine (assignmentText name value) = assignmentText name value

/-- The line of an assignment is read as the assignment. -/
theorem readLine_assignmentText {name value : String} (h : Settable name value) :
    readLine (assignmentText name value) = .ok (some (.assign ⟨name, value, false⟩)) := by
  have hassign : isAssignment (assignmentText name value) = true := rfl
  have htrim : trimEndOf (· == ';') (assignmentText name value) =
      'S' :: 'E' :: 'T' :: ' ' :: (name.toList ++ ' ' :: '=' :: ' ' :: value.toList) := by
    have hline : assignmentText name value =
        (['S', 'E', 'T', ' '] ++ (name.toList ++ [' ', '=', ' ']) ++ value.toList) ++ [';'] := by
      simp [assignmentText]
    rw [hline, trimEndOf_append_of_pos (by simp)]
    · simp
    · intro c hc
      rw [List.getLast?_append_of_ne_nil _ h.solid.ne_nil] at hc
      exact beq_eq_false_iff_ne.mpr fun heq => h.closed (heq ▸ List.mem_of_mem_getLast? hc)
  have hname : Flush (name.toList ++ ' ' :: '=' :: ' ' :: value.toList) := by
    intro c hc
    rw [List.head?_append_of_ne_nil _ h.named] at hc
    by_contra hblank
    rw [Bool.not_eq_false] at hblank
    exact ne_of_isWord (h.word c (List.mem_of_mem_head? hc)) (isWord_of_isBlank hblank) rfl
  have hblank : afterBlanks? (' ' :: (name.toList ++ ' ' :: '=' :: ' ' :: value.toList)) =
      some (name.toList ++ ' ' :: '=' :: ' ' :: value.toList) :=
    (Blanks.singleton (by decide)).afterBlanks?_append (List.cons_ne_nil ' ' []) hname
  obtain ⟨hrun, hafter⟩ := wordRun_append (List.all_eq_true.mpr h.word)
    (show startsWord (' ' :: '=' :: ' ' :: value.toList) = false from rfl)
  have hequals : skipBlanks (' ' :: '=' :: ' ' :: value.toList) = '=' :: ' ' :: value.toList := rfl
  have hvalue : trim (' ' :: value.toList) = value.toList := by
    rw [trim_cons_of_isBlank (by decide), h.solid.trim_eq_self]
  have hset : ∀ rest, afterAssignKeyword? ('S' :: 'E' :: 'T' :: rest) = some (false, rest) :=
    fun _ => rfl
  have hread : readAssignment? (assignmentText name value) = some ⟨name, value, false⟩ := by
    rw [readAssignment?, htrim, hset]
    simp [hblank, hrun, hafter, hequals, List.isPrefixOf?, hvalue, h.named]
  rw [readLine, if_pos hassign, hread]
  rfl

/-- A text after which a statement can begin: it ends with a line, its last statement is
complete, and reading it does not pass over the next line. -/
structure Ready (front : List Char) : Prop where
  endsLine : front = [] ∨ ∃ text, front = text ++ ['\n']
  complete : ∀ line ∈ (cleanedLines front).getLast?, line.getLast? = some ';'
  looks : skipsNext false (statementLines front) = false

/-- A script that sets a variable between two parts. -/
def assigning (front : List Char) (name value : String) (later : List Char) : String :=
  String.ofList (front ++ (assignmentText name value ++ '\n' :: later))

section Assigning

variable {front later : List Char} {name value : String}

theorem cleanedLines_assignmentText (h : Settable name value) :
    cleanedLines (assignmentText name value ++ ['\n']) = [assignmentText name value] := by
  have hname : '\n' ∉ name.toList := fun hmem =>
    ne_of_isWord (h.word _ hmem) (show isWord '\n' = false by decide) rfl
  have hline : '\n' ∉ assignmentText name value := by
    simp [assignmentText, hname, h.solid.oneLine]
  rw [cleanedLines, List.splitOn_append_cons_self_of_not_mem hline, List.map_cons, h.uncommented]
  rfl

theorem statementLines_assigning (hset : Settable name value) (hready : Ready front) :
    statementLines (assigning front name value later).toList =
      statementLines front ++ assignmentText name value :: statementLines later := by
  have hends : (assignmentText name value).getLast? = some ';' := by
    simp [assignmentText, List.getLast?_append, List.getLast?_cons]
  have hcut : assignmentText name value ++ '\n' :: later =
      (assignmentText name value ++ ['\n']) ++ later := by
    simp
  have hlines : cleanedLines (assigning front name value later).toList =
      cleanedLines front ++ assignmentText name value :: cleanedLines later := by
    rw [assigning, String.toList_ofList, cleanedLines_append hready.endsLine, hcut,
      cleanedLines_append (Or.inr ⟨_, rfl⟩), cleanedLines_assignmentText hset]
    rfl
  show gather [] (cleanedLines _) = gather [] (cleanedLines _) ++ _
  rw [hlines, gather_append hready.complete, gather_cons_of_endsWith hends]
  rfl

/-- The statements of a script that sets a variable are those of the part before, the
assignment, and those of the part behind it, read on its own. -/
theorem readScript_assigning_eq_ok (hset : Settable name value) (hready : Ready front)
    {statements : List Statement} :
    readScript (assigning front name value later) = .ok statements ↔
      ∃ before after, readScript (String.ofList front) = .ok before ∧
        readScript (String.ofList later) = .ok after ∧
        statements = before ++ .assign ⟨name, value, false⟩ :: after := by
  have hread : ∀ script, readScript script =
      lineResults (lookedAt false (statementLines script.toList)) := fun _ => readLines_fst _ _
  have hline := readLine_assignmentText hset
  have hsomething : givesNothing (assignmentText name value) = false := by
    rw [givesNothing, hline]
  have hassign : lineResults [assignmentText name value] = .ok [.assign ⟨name, value, false⟩] := by
    rw [lineResults_cons_of_ok hline]
    rfl
  rw [hread, hread, hread, String.toList_ofList, String.toList_ofList,
    statementLines_assigning hset hready, lookedAt_append, hready.looks, lookedAt, hsomething,
    lineResults_append_eq_ok]
  refine exists_congr fun before => ?_
  constructor
  · rintro ⟨back, hbefore, hback, rfl⟩
    obtain ⟨found, after, hfound, hafter, rfl⟩ :=
      lineResults_append_eq_ok.mp (show lineResults ([_] ++ _) = .ok back from hback)
    obtain rfl := Except.ok.inj (hassign.symm.trans hfound)
    exact ⟨after, hbefore, hafter, rfl⟩
  · rintro ⟨after, hbefore, hafter, rfl⟩
    exact ⟨_, hbefore, lineResults_append_eq_ok.mpr ⟨_, after, hassign, hafter, rfl⟩, rfl⟩

end Assigning

end Script

/-! ## Models that differ in an assignment -/

/-- Two models agree in everything but their variables. -/
structure DataModel.SameButVariables (model other : DataModel) : Prop where
  tables : other.tables = model.tables
  mappings : other.mappings = model.mappings
  relationships : other.relationships = model.relationships
  executionOrder : other.executionOrder = model.executionOrder

/-- Another assignment in the place of one leaves all but the variables as they were. -/
theorem DataModel.exists_ofStatements_assign {before after : List Statement}
    (hnamed : ∀ statement ∈ after, statement.NamesJoin) {first : Assignment} {model : DataModel}
    (h : DataModel.ofStatements (before ++ .assign first :: after) = .ok model)
    (second : Assignment) :
    ∃ other, DataModel.ofStatements (before ++ .assign second :: after) = .ok other ∧
      SameButVariables model other := by
  obtain ⟨taken, htaken, rfl⟩ := DataModel.ofStatements_eq_ok h
  obtain ⟨start, next, hbefore, hadd, hafter⟩ := Builder.foldlM_add_append_cons_eq_ok htaken
  obtain ⟨changed, hadd'⟩ : ∃ changed, start.add (.assign second) = .ok changed := ⟨_, rfl⟩
  have halike : Builder.Alike next changed := by
    cases hadd
    cases hadd'
    exact ⟨rfl, rfl⟩
  obtain ⟨other, hother, hsame⟩ := halike.foldlM hnamed hafter
  have hwhole : (before ++ .assign second :: after).foldlM Builder.add {} = .ok other :=
    Builder.foldlM_add_append_eq_ok.mpr
      ⟨start, hbefore, Builder.foldlM_add_cons_eq_ok.mpr ⟨changed, hadd', hother⟩⟩
  have hmodel := DataModel.ofStatements_of_foldlM hwhole
  refine ⟨_, hmodel, hsame.tables.symm, ?_, ?_, ?_⟩
  · -- Mappings depend on the statements alone, and assignments do not touch them.
    show other.model.mappings = taken.model.mappings
    rw [(Builder.extends_of_foldlM hwhole).mappings, (Builder.extends_of_foldlM htaken).mappings,
      List.foldl_append, List.foldl_append]
    rfl
  · rw [DataModel.relationships_eq hmodel, DataModel.relationships_eq h]
    exact congrArg QlikMigration.relationships hsame.tables.symm
  · exact congrArg QlikMigration.executionOrder hsame.tables.symm

/-- The programs of models that agree in everything but their variables differ in the block
of the variables only. -/
theorem DataModel.SameButVariables.exists_program {model other : DataModel}
    (h : SameButVariables model other)
    (hsourced : ∀ name table, model.tables.get? name = some table → table.Sourced)
    (session : Spark.Session) :
    ∃ rest,
      Spark.program session model = .ok ("\n".intercalate
        (Spark.header session ++ Spark.variablesBlock model.bindings ++ rest)) ∧
      Spark.program session other = .ok ("\n".intercalate
        (Spark.header session ++ Spark.variablesBlock other.bindings ++ rest)) := by
  obtain ⟨text, htext⟩ := Spark.exists_program hsourced session
  rw [Spark.program, Spark.programLines] at htext
  have hsame : Spark.tableBlocks other = Spark.tableBlocks model := by
    rw [Spark.tableBlocks, Spark.tableBlocks, h.tables, h.executionOrder]
  cases hblocks : Spark.tableBlocks model with
  | error cause =>
      rw [hblocks] at htext
      cases htext
  | ok blocks =>
      refine ⟨model.mappings.entries.flatMap
          (fun entry => Spark.mappingBlock entry.1 entry.2 ++ [""]) ++
        blocks.flatten ++ Spark.footer model.executionOrder, ?_, ?_⟩
      · rw [Spark.program, Spark.programLines, hblocks]
        simp [Except.map]
      · rw [Spark.program, Spark.programLines, hsame, hblocks, h.mappings, h.executionOrder]
        simp [Except.map]

/-! ## Paths in a program -/

theorem infix_intercalate_of_mem {separator line : String} {lines : List String}
    (h : line ∈ lines) : line.toList <:+: (separator.intercalate lines).toList := by
  rw [String.toList_intercalate]
  induction lines with
  | nil => cases h
  | cons first lines ih =>
      cases lines with
      | nil =>
          obtain rfl := List.mem_singleton.mp h
          simp
      | cons second lines =>
          rw [List.map_cons, List.map_cons, List.intercalate_cons_cons]
          rcases List.mem_cons.mp h with rfl | hlater
          · rw [List.append_assoc]
            exact (List.prefix_append _ _).isInfix
          · exact (ih hlater).trans (List.suffix_append _ _).isInfix

theorem infix_append_quoted (front path back : String) :
    path.toList <:+: (front ++ Spark.quoted path ++ back).toList :=
  ⟨front.toList ++ ['\''], '\'' :: back.toList, by simp [Spark.quoted]⟩

/-- The expression that reads a file has the path of the file in it. -/
theorem infix_expression (reader : Spark.FileReader) (path : String) :
    path.toList <:+: (reader.expression path).toList := by
  cases reader with
  | csv | parquet | json | excel => exact infix_append_quoted _ path _

/-- The line that reads a table from its file has the path of the table in it. -/
theorem infix_externalLine {table : Table} {path : String} (hpath : table.sourcePath = some path)
    (hne : path ≠ "") (frame : String) :
    path.toList <:+: (Spark.externalLine table frame).toList := by
  have hkept : (path == "") = false := beq_eq_false_iff_ne.mpr hne
  simp only [Spark.externalLine, hpath, hkept, Bool.false_eq_true, if_false, String.toList_append]
  exact (infix_expression _ path).trans (List.suffix_append _ _).isInfix

/-- What stands in the path of a table that is read from a file stands in the program. -/
theorem infix_program {statements : List Statement} {model : DataModel} {name text : String}
    {table : Table} {part : List Char} (hmodel : DataModel.ofStatements statements = .ok model)
    (htable : model.tables.get? name = some table) (hexternal : table.sourceType = "external")
    (hne : part ≠ []) (hpart : ∃ path ∈ table.sourcePath, part <:+: path.toList)
    {session : Spark.Session} (htext : Spark.program session model = .ok text) :
    part <:+: text.toList := by
  obtain ⟨path, hpath, hpart⟩ := hpart
  have hpathNe : path ≠ "" := by
    rintro rfl
    exact hne (List.infix_nil.mp hpart)
  obtain ⟨stages, hstages, -, -, hprogram⟩ := DataModel.exists_stages_of_ofStatements hmodel
  obtain ⟨stage, hstage, rfl, rfl⟩ :=
    exists_stage_of_get? hstages (DataModel.topological_of_ofStatements hmodel) htable
  have hline : Spark.externalLine stage.table (Spark.frameName stage.table.name) ∈ stage.block := by
    have hblock := stage.written
    simp only [Spark.tableBlock, Spark.sourceLines, hexternal, beq_self_eq_true, if_true] at hblock
    rw [← Except.ok.inj hblock]
    simp
  have hlines : Spark.externalLine stage.table (Spark.frameName stage.table.name) ∈
      stages.flatMap Stage.lines :=
    List.mem_flatMap.mpr ⟨stage, hstage, List.mem_append_left _ hline⟩
  obtain ⟨before, after, -, hwhole⟩ := hprogram session
  rw [Except.ok.inj (htext.symm.trans hwhole)]
  exact (hpart.trans (infix_externalLine hpath hpathNe _)).trans
    (infix_intercalate_of_mem (List.mem_append_left _ (List.mem_append_right _ hlines)))

/-! ## Scripts with references -/

/-- What becomes of the references behind an assignment. -/
structure StaysUnexpanded (front : List Char) (name value : String) (later : List Char) :
    Prop where
  /-- What stands behind the assignment is read as it would be on its own. -/
  statements : ∀ statements, readScript (assigning front name value later) = .ok statements ↔
    ∃ before after, readScript (String.ofList front) = .ok before ∧
      readScript (String.ofList later) = .ok after ∧
      statements = before ++ .assign ⟨name, value, false⟩ :: after
  /-- A table has a reference in its path or filter exactly if its load has it. -/
  mentions : ∀ after load, readScript (String.ofList later) = .ok after → .load load ∈ after →
    ∀ (builder : Builder) label table, builder.tableOf label load = .ok table →
      (table.Mentions (referenceTo name) ↔ load.Mentions (referenceTo name))
  /-- A path without brackets ends before a reference. -/
  unbracketed : ∀ line ∈ statementLines later, hasBracketedSource line = false →
    ∀ load path, readLine line = .ok (some (.load load)) → load.source = some path →
      ¬ referenceTo name <:+: path.toList
  /-- Another value changes the variables and their block in the program only. -/
  values : ∀ model other, DataModel.ofScript (assigning front name value later) = .ok model →
    Settable name other →
    ∃ changed, DataModel.ofScript (assigning front name other later) = .ok changed ∧
      model.SameButVariables changed ∧
      ∀ session, ∃ rest,
        Spark.program session model = .ok ("\n".intercalate
          (Spark.header session ++ Spark.variablesBlock model.bindings ++ rest)) ∧
        Spark.program session changed = .ok ("\n".intercalate
          (Spark.header session ++ Spark.variablesBlock changed.bindings ++ rest))
  /-- Where a table has a reference, replacing the references behind the assignment, by
  whatever text, gives other tables, unless a reference is left. -/
  tables : ∀ model label table expansion expanded,
    DataModel.ofScript (assigning front name value later) = .ok model →
    model.tables.get? label = some table → table.Mentions (referenceTo name) →
    ¬ referenceTo name <:+:
      (assigning front name value (replace (referenceTo name) expansion later)).toList →
    DataModel.ofScript (assigning front name value (replace (referenceTo name) expansion later)) =
      .ok expanded →
    expanded.tables ≠ model.tables
  /-- The program still has a reference that stands in the path of a file. -/
  program : ∀ model label table,
    DataModel.ofScript (assigning front name value later) = .ok model →
    model.tables.get? label = some table → table.sourceType = "external" →
    (∃ path ∈ table.sourcePath, referenceTo name <:+: path.toList) →
    ∀ session text, Spark.program session model = .ok text → referenceTo name <:+: text.toList

/-- References to a variable are not expanded, wherever the variable is set before them. -/
theorem staysUnexpanded_of_settable {front : List Char} {name value : String}
    (hset : Settable name value) (hready : Ready front) (later : List Char) :
    StaysUnexpanded front name value later where
  statements _ := readScript_assigning_eq_ok hset hready
  mentions after load hafter hload builder label table htable := by
    obtain ⟨line, -, hline⟩ := exists_line_of_mem hafter hload
    exact mentions_tableOf_iff hset.word (Spark.kind_of_readLine hline) htable
  unbracketed line _ hbracket load path hload hpath hpart := by
    rw [(origin_of_readLine hload).2] at hpath
    exact dollar_not_mem_of_readOrigin hbracket hpath (hpart.subset List.mem_cons_self)
  values model other hmodel hother := by
    obtain ⟨statements, hread, hbuilt⟩ := DataModel.ofScript_eq_ok hmodel
    obtain ⟨before, after, hbefore, hafter, rfl⟩ :=
      (readScript_assigning_eq_ok hset hready).mp hread
    obtain ⟨changed, hchanged, hsame⟩ := DataModel.exists_ofStatements_assign
      (namesJoin_of_readScript hafter) hbuilt ⟨name, other, false⟩
    have hread' := (readScript_assigning_eq_ok hother hready).mpr
      ⟨before, after, hbefore, hafter, rfl⟩
    exact ⟨changed, DataModel.ofScript_of_readScript hread' hchanged, hsame,
      hsame.exists_program (DataModel.sourced_of_ofStatements hbuilt)⟩
  tables model label table expansion expanded _ htable hmentions hnone hexpanded heq := by
    rw [← heq] at htable
    exact hnone (infix_of_table_mentions hset.word hexpanded htable hmentions)
  program model label table hmodel htable hexternal hpath session text htext := by
    obtain ⟨statements, -, hbuilt⟩ := DataModel.ofScript_eq_ok hmodel
    exact infix_program hbuilt htable hexternal (List.cons_ne_nil _ _) hpath htext

/-- A file is loaded before the variable is set. -/
def earlierPart : List Char :=
  "A: LOAD * FROM x.csv;\n".toList

/-- A file is loaded whose path and condition refer to the variable. -/
def referringPart : List Char :=
  "T: LOAD * FROM [$(v)] WHERE k = $(v);".toList

def referringStatements (path condition : String) : List Statement :=
  [loadAll .external "A" "x.csv", .assign ⟨"v", "'data.csv'", false⟩,
    .load { kind := .external, label := some "T", fields := [⟨"*", none, false⟩],
            source := some path, condition := some condition, grouping := none,
            ordering := none, join := none, distinct := false, rows := none }]

/-- The table reads a file by the name `$(v)`, and not by the value of the variable. -/
theorem staysUnexpanded_of_quoted_path :
    Settable "v" "'data.csv'" ∧ Ready earlierPart ∧
      StaysUnexpanded earlierPart "v" "'data.csv'" referringPart ∧
      ∃ model table expanded,
        DataModel.ofScript (assigning earlierPart "v" "'data.csv'" referringPart) = .ok model ∧
        model.tables.get? "T" = some table ∧ table.sourcePath = some "$(v)" ∧
        table.conditions = ["k == $(v)"] ∧
        DataModel.ofScript (assigning earlierPart "v" "'data.csv'"
          (replace (referenceTo "v") "data.csv".toList referringPart)) = .ok expanded ∧
        expanded.tables ≠ model.tables := by
  have hplain : ∀ c ∈ "'data.csv'".toList, isBlank c = false := fun c hc =>
    Bool.eq_false_iff.mpr (List.any_eq_false.mp (by decide) c hc)
  have hsolid : Solid "'data.csv'".toList :=
    ⟨by decide, fun c hc => hplain c (List.mem_of_mem_head? hc),
      fun c hc => hplain c (List.mem_of_mem_getLast? hc), by decide⟩
  have hset : Settable "v" "'data.csv'" :=
    ⟨by decide, List.all_eq_true.mp (by decide), hsolid, by decide, by decide +kernel⟩
  have hready : Ready earlierPart :=
    ⟨Or.inr ⟨"A: LOAD * FROM x.csv;".toList, by decide +kernel⟩, by decide +kernel,
      by decide +kernel⟩
  have hstays := staysUnexpanded_of_settable hset hready referringPart
  obtain ⟨model, table, hmodel, htable, hpath, hconditions⟩ :
      ∃ model table, DataModel.ofStatements (referringStatements "$(v)" "k = $(v)") = .ok model ∧
        model.tables.get? "T" = some table ∧ table.sourcePath = some "$(v)" ∧
        table.conditions = ["k == $(v)"] :=
    ⟨_, _, rfl, rfl, rfl, by decide +kernel⟩
  obtain ⟨expanded, hexpanded⟩ : ∃ expanded,
      DataModel.ofStatements (referringStatements "data.csv" "k = data.csv") = .ok expanded :=
    ⟨_, rfl⟩
  have hscript := DataModel.ofScript_of_readScript (show readScript
    (assigning earlierPart "v" "'data.csv'" referringPart) = _ by decide +kernel) hmodel
  have hscript' := DataModel.ofScript_of_readScript (show readScript
    (assigning earlierPart "v" "'data.csv'"
      (replace (referenceTo "v") "data.csv".toList referringPart)) = _ by decide +kernel) hexpanded
  refine ⟨hset, hready, hstays, model, table, expanded, hscript, htable, hpath, hconditions,
    hscript', ?_⟩
  refine hstays.tables model "T" table _ expanded hscript htable
    (Or.inl ⟨_, hpath, List.infix_refl _⟩) (fun hleft => ?_) hscript'
  -- No dollar sign is left.
  exact absurd (hleft.subset List.mem_cons_self) (by decide +kernel)

end QlikMigration
