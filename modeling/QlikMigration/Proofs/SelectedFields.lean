import QlikMigration.Proofs.Outputs
import QlikMigration.Proofs.Runs

/-!
# Which fields of a load reach the program

The semantic model lists a column for every field of a load. The program does
less. The block of a table from a file has no selection at all, so no field of
the load is computed there. The block of a table from another table has one
selection, with an item for each field that is kept: a field is dropped by a
star after it, if the columns of the source are known. An item gives the
expression of its field under the column's name only if the field is calculated;
a field that is merely renamed is taken to be a column of the new name already.

What a field contributes is told by leaving it out: the selection is compared
with the one of the same load without the field.
-/

namespace QlikMigration

open QlikMigration.Script

/-! ## Items -/

namespace Spark

/-- The expressions of columns that a step writes. -/
def items : Action → List String
  | .select _ _ columns distinct => if distinct then [] else columns.map selectedText
  | .aggregate _ _ grouping aggregations =>
    grouping.map columnText ++ aggregations.entries.map fun entry => aliasText entry.2 entry.1
  | .filter .. | .join .. | .union .. | .other _ => []

/-- The expressions of columns that the steps of a table write. -/
def tableItems (table : Table) : List String :=
  table.steps.flatMap fun step => items step.action

/-- The lines of a selection: none if nothing is selected. -/
def selectionLines (frame : String) (selected : List String) : List String :=
  if selected.isEmpty then []
  else [frame ++ " = " ++ frame ++ ".select(" ++ ", ".intercalate selected ++ ")"]

theorem stepLines_select (frame name source : String) (columns : List Column) :
    stepLines frame (.select name source columns false) =
      selectionLines frame (columns.map selectedText) := by
  cases columns <;> rfl

/-- A text is an item that is gone from the items without a field. -/
def Contributes (text : String) (selected without : List String) : Prop :=
  ∃ front back, selected = front ++ text :: back ∧ without = front ++ back

theorem Contributes.ne {text : String} {selected without : List String}
    (h : Contributes text selected without) : selected ≠ without := by
  obtain ⟨front, back, rfl, rfl⟩ := h
  intro heq
  have hlength := congrArg List.length heq
  simp at hlength

/-- There is one text at most that is gone. -/
theorem Contributes.unique {first second : String} {selected without : List String}
    (hfirst : Contributes first selected without) (hsecond : Contributes second selected without) :
    first = second := by
  obtain ⟨front, back, rfl, rfl⟩ := hfirst
  obtain ⟨front', back', hselected, hwithout⟩ := hsecond
  have hperm : (first :: (front ++ back)).Perm (second :: (front ++ back)) := by
    calc
      List.Perm (first :: (front ++ back)) (front ++ first :: back) := List.perm_middle.symm
      _ = front' ++ second :: back' := hselected
      List.Perm _ (second :: (front' ++ back')) := List.perm_middle
      _ = second :: (front ++ back) := by rw [hwithout]
  have hcount := hperm.count_eq first
  by_contra hne
  rw [List.count_cons_self, List.count_cons_of_ne (Ne.symm hne)] at hcount
  omega

/-- A column by its name alone is no expression under that name. -/
theorem columnText_ne_aliasText (expression name : String) :
    columnText name ≠ aliasText expression name := by
  intro heq
  have hlength := congrArg (fun text : String => text.toList.length) heq
  simp [columnText, aliasText, quoted] at hlength
  omega

end Spark

/-! ## Selected columns -/

/-- No star drops what stands before it: the source is unknown, or there is no star. -/
def Keeps (source? : Option Table) (later : List Field) : Prop :=
  source? = none ∨ ∀ field ∈ later, field.isStar = false

/-- Fields that drop nothing add their columns. -/
theorem selectedColumns_append_of_keeps {source? : Option Table} {later : List Field}
    (hkeeps : Keeps source? later) (earlier : List Field) :
    selectedColumns source? (earlier ++ later) =
      selectedColumns source? earlier ++ fieldColumns later := by
  rw [selectedColumns, List.foldl_append, ← selectedColumns]
  generalize selectedColumns source? earlier = columns
  induction later generalizing columns with
  | nil => simp [fieldColumns]
  | cons field later ih =>
      have hlater : Keeps source? later :=
        hkeeps.imp id fun hstars other hother => hstars other (List.mem_cons_of_mem field hother)
      rw [List.foldl_cons, ih hlater]
      cases hstar : field.isStar with
      | false => simp [fieldColumns, hstar]
      | true =>
          have hnone : source? = none := by
            refine hkeeps.resolve_right fun hstars => ?_
            rw [hstars field List.mem_cons_self] at hstar
            cases hstar
          simp [fieldColumns, hstar, hnone]

/-- A star with a known source drops all that stands before it. -/
theorem selectedColumns_append_of_not_keeps {source? : Option Table} {later : List Field}
    (hdrops : ¬ Keeps source? later) (earlier : List Field) :
    selectedColumns source? (earlier ++ later) = selectedColumns source? later := by
  rw [Keeps, not_or] at hdrops
  obtain ⟨source, rfl⟩ := Option.ne_none_iff_exists'.mp hdrops.1
  have hstar : ∃ field ∈ later, field.isStar = true := by simpa using hdrops.2
  obtain ⟨star, hmem, hstar⟩ := hstar
  obtain ⟨front, back, rfl⟩ := List.append_of_mem hmem
  -- The star sets the columns to those of the source, whatever they were.
  simp [selectedColumns, hstar]

variable {builder : Builder} {name : String} {load : Load} {table : Table}

/-! ## The items of a load -/

namespace Spark

/-- Without a grouping the steps after the origin of a table write no columns. -/
theorem items_of_mem_laterSteps (hgrouping : load.grouping = none) {columns : List Column}
    {step : Step} (hstep : step ∈ builder.laterSteps name load columns) :
    items step.action = [] := by
  simp only [Builder.laterSteps, hgrouping, Option.map_none, Option.toList_none, List.append_nil,
    List.mem_append, Option.mem_toList, Option.map_eq_some_iff] at hstep
  rcases hstep with (⟨join, -, rfl⟩ | ⟨condition, -, rfl⟩) | hdistinct
  · rfl
  · rfl
  · split at hdistinct
    · obtain rfl := List.mem_singleton.mp hdistinct
      rfl
    · cases hdistinct

/-- A table from a file has no selection. -/
theorem steps_of_external (h : builder.tableOf name load = .ok table)
    (hkind : load.kind = .external) :
    table.columns = fieldColumns load.fields ∧
      table.steps = builder.laterSteps name load table.columns := by
  obtain ⟨origin, horigin, rfl⟩ := exists_originTable h
  rw [Builder.originTable, hkind] at horigin
  cases horigin
  exact ⟨rfl, rfl⟩

/-- A table from another table has one selection, before its other steps. -/
theorem steps_of_resident (h : builder.tableOf name load = .ok table)
    (hkind : load.kind = .resident) {source : String} (hsource : load.source = some source) :
    table.columns = fieldColumns load.fields ∧
      table.steps =
        ⟨.select name source
            (selectedColumns (builder.model.tables.get? source) load.fields) false, [source]⟩ ::
          builder.laterSteps name load table.columns := by
  obtain ⟨origin, horigin, rfl⟩ := exists_originTable h
  rw [Builder.originTable, hkind, hsource] at horigin
  cases horigin
  exact ⟨rfl, rfl⟩

theorem tableItems_of_external (h : builder.tableOf name load = .ok table)
    (hkind : load.kind = .external) (hgrouping : load.grouping = none) : tableItems table = [] := by
  rw [tableItems, (steps_of_external h hkind).2]
  exact List.flatMap_eq_nil_iff.mpr fun step hstep => items_of_mem_laterSteps hgrouping hstep

theorem tableItems_of_resident (h : builder.tableOf name load = .ok table)
    (hkind : load.kind = .resident) {source : String} (hsource : load.source = some source)
    (hgrouping : load.grouping = none) :
    tableItems table =
      (selectedColumns (builder.model.tables.get? source) load.fields).map selectedText := by
  have hlater :
      (builder.laterSteps name load table.columns).flatMap (fun step => items step.action) = [] :=
    List.flatMap_eq_nil_iff.mpr fun step hstep => items_of_mem_laterSteps hgrouping hstep
  rw [tableItems, (steps_of_resident h hkind hsource).2, List.flatMap_cons, hlater, List.append_nil]
  rfl

/-- A load that is taken in comes from a file, or from a table that it names. -/
theorem source_of_tableOf (h : builder.tableOf name load = .ok table)
    (hkind : load.kind = .resident) : ∃ source, load.source = some source := by
  obtain ⟨origin, horigin, -⟩ := exists_originTable h
  rw [← Option.ne_none_iff_exists']
  intro hnone
  rw [Builder.originTable, hkind, hnone] at horigin
  cases horigin

/-- The block of a table has the items of its columns in one selection, and steps that write no
columns after it. -/
theorem exists_block_of_tableOf (h : builder.tableOf name load = .ok table)
    (hkind : load.kind = .external ∨ load.kind = .resident) (hgrouping : load.grouping = none) :
    ∃ (block source : List String) (steps : List Step), tableBlock table = .ok block ∧
      sourceLines table (frameName name) = .ok source ∧
      (∀ step ∈ steps, items step.action = []) ∧
      block = ("# Table: " ++ name) :: source ++
        selectionLines (frameName name) (tableItems table) ++
        steps.flatMap fun step => stepLines (frameName name) step.action := by
  obtain ⟨rfl, -⟩ := tableOf_eq_ok h
  obtain ⟨block, hblock⟩ := exists_tableBlock (Builder.sourced_of_tableOf h)
  obtain ⟨source, hsource, hlines⟩ := tableBlock_eq_ok hblock
  refine ⟨block, source, builder.laterSteps table.name load table.columns, hblock, hsource,
    fun step hstep => items_of_mem_laterSteps hgrouping hstep, ?_⟩
  rcases hkind with hexternal | hresident
  · rw [hlines, tableItems_of_external h hexternal hgrouping, (steps_of_external h hexternal).2]
    simp [selectionLines]
  · obtain ⟨origin, horigin⟩ := source_of_tableOf h hresident
    rw [hlines, tableItems_of_resident h hresident horigin hgrouping, List.append_assoc]
    conv_lhs => rw [(steps_of_resident h hresident horigin).2]
    rw [List.flatMap_cons, stepLines_select]

end Spark

/-! ## What a field contributes -/

/-- A calculated field has an expression. -/
theorem Script.expression_ne_empty {line : List Char} {field : Field}
    (hfield : field ∈ readFields line) (hcalculated : field.calculated = true) :
    field.expression ≠ "" := by
  have hread : ∀ entry,
      (readField entry).calculated = isCalculated (readField entry).expression.toList := by
    intro entry
    rw [readField]
    simp
  rw [readFields] at hfield
  split at hfield
  · cases hfield
  · split at hfield
    · obtain rfl := List.mem_singleton.mp hfield
      decide
    · obtain ⟨entry, -, rfl⟩ := List.mem_map.mp hfield
      intro hempty
      rw [hread, hempty] at hcalculated
      exact absurd hcalculated (by decide)

namespace Spark

/-- The item of a column gives its expression if the field is calculated, and else its name. -/
theorem selectedText_column {field : Field}
    (hexpression : field.calculated = true → field.expression ≠ "") :
    selectedText field.column =
      if field.calculated then aliasText field.expression field.columnName
      else columnText field.columnName := by
  cases hcalculated : field.calculated with
  | false => simp [selectedText, Field.column, hcalculated]
  | true => simp [selectedText, Field.column, hcalculated, hexpression hcalculated]

/-- What becomes of a field of a load in the block of its table, given the fields after it, the
table that the load reads, if it is known, and the table of the load without the field. -/
structure FieldRun (load : Load) (field : Field) (later : List Field) (source? : Option Table)
    (name : String) (table without : Table) : Prop where
  /-- The items are written in one selection, and nothing else in the block writes columns. -/
  block : ∃ (block source : List String) (steps : List Step), tableBlock table = .ok block ∧
    sourceLines table (frameName name) = .ok source ∧ (∀ step ∈ steps, items step.action = []) ∧
    block = ("# Table: " ++ name) :: source ++ selectionLines (frameName name) (tableItems table) ++
      steps.flatMap fun step => stepLines (frameName name) step.action
  listed : field.columnName ∈ table.columnNames
  aliased : Contributes (aliasText field.expression field.columnName)
      (tableItems table) (tableItems without) ↔
    load.kind = .resident ∧ Keeps source? later ∧ field.calculated = true
  named : Contributes (columnText field.columnName) (tableItems table) (tableItems without) ↔
    load.kind = .resident ∧ Keeps source? later ∧ field.calculated = false
  unseen : tableItems table = tableItems without ↔ load.kind = .external ∨ ¬ Keeps source? later

/-- Whether a load is taken in does not depend on its fields. -/
theorem exists_tableOf_of_fields (h : builder.tableOf name load = .ok table)
    (fields : List Field) :
    ∃ other, builder.tableOf name { load with fields := fields } = .ok other := by
  cases hother : builder.tableOf name { load with fields := fields } with
  | ok other => exact ⟨other, rfl⟩
  | error cause =>
      cases cause
      have hunsourced := Builder.tableOf_eq_error_iff.mp hother
      have hself : load.Unsourced := hunsourced
      rw [Builder.tableOf_eq_error_iff.mpr hself] at h
      cases h

section Field

variable {earlier later : List Field} {field : Field} {without : Table}

/-- A field of a load from a file, or one that a star drops, contributes nothing. -/
theorem tableItems_eq_without (h : builder.tableOf name load = .ok table)
    (hfields : load.fields = earlier ++ field :: later)
    (hwithout : builder.tableOf name { load with fields := earlier ++ later } = .ok without)
    (hgrouping : load.grouping = none)
    (hunseen : load.kind = .external ∨
      load.kind = .resident ∧ ¬ Keeps (load.source.bind builder.model.tables.get?) later) :
    tableItems table = tableItems without := by
  rcases hunseen with hkind | ⟨hkind, hdrops⟩
  · rw [tableItems_of_external h hkind hgrouping, tableItems_of_external hwithout hkind hgrouping]
  · obtain ⟨source, hsource⟩ := source_of_tableOf h hkind
    rw [hsource, Option.bind_some] at hdrops
    rw [tableItems_of_resident h hkind hsource hgrouping,
      tableItems_of_resident hwithout hkind hsource hgrouping, hfields,
      List.append_cons, selectedColumns_append_of_not_keeps hdrops,
      selectedColumns_append_of_not_keeps hdrops]

/-- A field that is kept contributes the item of its column. -/
theorem contributes_of_keeps (h : builder.tableOf name load = .ok table)
    (hfields : load.fields = earlier ++ field :: later) (hstar : field.isStar = false)
    (hwithout : builder.tableOf name { load with fields := earlier ++ later } = .ok without)
    (hgrouping : load.grouping = none) (hkind : load.kind = .resident)
    (hkeeps : Keeps (load.source.bind builder.model.tables.get?) later) :
    Contributes (selectedText field.column) (tableItems table) (tableItems without) := by
  obtain ⟨source, hsource⟩ := source_of_tableOf h hkind
  rw [hsource, Option.bind_some] at hkeeps
  have hkeepsField : Keeps (builder.model.tables.get? source) (field :: later) :=
    hkeeps.imp id fun hstars => List.forall_mem_cons.mpr ⟨hstar, hstars⟩
  have hcolumns : fieldColumns (field :: later) = field.column :: fieldColumns later := by
    simp [fieldColumns, hstar]
  refine ⟨(selectedColumns (builder.model.tables.get? source) earlier).map selectedText,
    (fieldColumns later).map selectedText, ?_, ?_⟩
  · rw [tableItems_of_resident h hkind hsource hgrouping, hfields,
      selectedColumns_append_of_keeps hkeepsField, hcolumns, List.map_append, List.map_cons]
  · rw [tableItems_of_resident hwithout hkind hsource hgrouping,
      selectedColumns_append_of_keeps hkeeps, List.map_append]

/-- A field goes one of three ways: its expression under the column's name, the column's name
alone, or nothing. -/
theorem fieldRun_of_tableOf (h : builder.tableOf name load = .ok table)
    (hfields : load.fields = earlier ++ field :: later) (hstar : field.isStar = false)
    (hexpression : field.calculated = true → field.expression ≠ "")
    (hwithout : builder.tableOf name { load with fields := earlier ++ later } = .ok without)
    (hkind : load.kind = .external ∨ load.kind = .resident) (hgrouping : load.grouping = none) :
    FieldRun load field later (load.source.bind builder.model.tables.get?) name table without := by
  have hwritten := exists_block_of_tableOf h hkind hgrouping
  have hcolumns : table.columns = fieldColumns load.fields := by
    rcases hkind with hexternal | hresident
    · exact (steps_of_external h hexternal).1
    · obtain ⟨source, hsource⟩ := source_of_tableOf h hresident
      exact (steps_of_resident h hresident hsource).1
  have hlisted : field.columnName ∈ table.columnNames := by
    rw [Table.columnNames, hcolumns, hfields]
    exact List.mem_map.mpr ⟨field.column, by simp [fieldColumns, hstar], rfl⟩
  by_cases hseen :
      load.kind = .resident ∧ Keeps (load.source.bind builder.model.tables.get?) later
  · obtain ⟨hresident, hkeeps⟩ := hseen
    have hitem := contributes_of_keeps h hfields hstar hwithout hgrouping hresident hkeeps
    rw [selectedText_column hexpression] at hitem
    have hunseen : ¬ (load.kind = .external ∨
        ¬ Keeps (load.source.bind builder.model.tables.get?) later) := by
      simp [hresident, hkeeps]
    cases hcalculated : field.calculated with
    | true =>
        rw [hcalculated, if_pos rfl] at hitem
        refine ⟨hwritten, hlisted, iff_of_true hitem ⟨hresident, hkeeps, hcalculated⟩,
          iff_of_false (fun hnamed => ?_) ?_, iff_of_false hitem.ne hunseen⟩
        · exact columnText_ne_aliasText _ _ (hnamed.unique hitem)
        · simp [hcalculated]
    | false =>
        rw [hcalculated, if_neg Bool.false_ne_true] at hitem
        refine ⟨hwritten, hlisted, iff_of_false (fun haliased => ?_) ?_,
          iff_of_true hitem ⟨hresident, hkeeps, hcalculated⟩, iff_of_false hitem.ne hunseen⟩
        · exact columnText_ne_aliasText _ _ (hitem.unique haliased)
        · simp [hcalculated]
  · have hunseen : load.kind = .external ∨ load.kind = .resident ∧
        ¬ Keeps (load.source.bind builder.model.tables.get?) later :=
      hkind.imp id fun hresident => ⟨hresident, fun hkeeps => hseen ⟨hresident, hkeeps⟩⟩
    have hsame := tableItems_eq_without h hfields hwithout hgrouping hunseen
    exact ⟨hwritten, hlisted,
      iff_of_false (fun haliased => haliased.ne hsame) fun hboth => hseen ⟨hboth.1, hboth.2.1⟩,
      iff_of_false (fun hnamed => hnamed.ne hsame) fun hboth => hseen ⟨hboth.1, hboth.2.1⟩,
      iff_of_true hsame (hunseen.imp id And.right)⟩

end Field

/-! ## Scripts -/

/-- In a script with a model, take a load from a file or from a table, without a grouping, and
one of its fields that is no star. The semantic model lists the column of the field, unless the
name of the table is given again. The expression of the field under the column's name is in the
block of the table on account of the field exactly if the load is from a table, the field is
calculated, and it is not dropped by a star after it. If it is not calculated, the column's name
stands there instead, and in the other cases nothing does. -/
theorem exists_fieldRun_of_script {script : String} {model : DataModel}
    {front back : List Statement} {load : Load} {earlier later : List Field} {field : Field}
    (hmodel : DataModel.ofScript script = .ok model)
    (hread : readScript script = .ok (front ++ .load load :: back))
    (hkind : load.kind = .external ∨ load.kind = .resident) (hgrouping : load.grouping = none)
    (hfields : load.fields = earlier ++ field :: later) (hstar : field.isStar = false) :
    ∃ before next table without, Builder.Takes model front load back before next table ∧
      (before.nameFor load).2.tableOf (before.nameFor load).1
        { load with fields := earlier ++ later } = .ok without ∧
      FieldRun load field later (load.source.bind before.model.tables.get?)
        (before.nameFor load).1 table without ∧
      (¬ next.Names back (before.nameFor load).1 →
        Semantic.HasColumn (Semantic.model model) (before.nameFor load).1 field.columnName) := by
  obtain ⟨statements, hstatements, hbuilt⟩ := DataModel.ofScript_eq_ok hmodel
  obtain rfl : statements = _ := Except.ok.inj (hstatements.symm.trans hread)
  obtain ⟨before, next, table, htakes⟩ := Builder.exists_takes hbuilt
  obtain ⟨line, -, hline⟩ := exists_line_of_mem hread (by simp : Statement.load load ∈ _)
  have hexpression : field.calculated = true → field.expression ≠ "" := by
    have hmem : field ∈ load.fields := by
      rw [hfields]
      simp
    obtain ⟨join, -, rfl⟩ := exists_readJoin_of_readLine hline
    exact expression_ne_empty hmem
  obtain ⟨without, hwithout⟩ := exists_tableOf_of_fields htakes.defined (earlier ++ later)
  have hrun := fieldRun_of_tableOf htakes.defined hfields hstar hexpression hwithout hkind hgrouping
  rw [Builder.model_nameFor] at hrun
  exact ⟨before, next, table, without, htakes, hwithout, hrun, fun hnamed =>
    Semantic.hasColumn_of_mem (Catalog.get?_eq_some_iff.mp (htakes.stays hnamed)) hrun.listed⟩

/-- A load that renames a column of a file. -/
def renamingScript : String :=
  "T: LOAD a as b FROM t.csv;"

/-- The load in that script. -/
def renamingLoad : Load :=
  ⟨.external, some "T", [⟨"a", some "b", false⟩], some "t.csv", none, none, none, none, false, none⟩

/-- The semantic model lists the column under its new name, and the program does not rename it. -/
theorem exists_fieldRun_of_renamingScript :
    ∃ model before next table without, DataModel.ofScript renamingScript = .ok model ∧
      Builder.Takes model [] renamingLoad [] before next table ∧
      FieldRun renamingLoad ⟨"a", some "b", false⟩ []
        (renamingLoad.source.bind before.model.tables.get?) "T" table without ∧
      Semantic.HasColumn (Semantic.model model) "T" "b" ∧
      ¬ Contributes (aliasText "a" "b") (tableItems table) (tableItems without) := by
  have hread : readScript renamingScript = .ok ([] ++ .load renamingLoad :: []) := by decide +kernel
  have hsourced : ∀ load, Statement.load load ∈ [.load renamingLoad] → ¬ load.Unsourced := by
    intro load hload hunsourced
    obtain rfl : load = renamingLoad := by simpa using hload
    cases hunsourced.1
  have hfields : renamingLoad.fields = [] ++ ⟨"a", some "b", false⟩ :: [] := rfl
  obtain ⟨model, hmodel⟩ := DataModel.exists_ofScript hread hsourced
  obtain ⟨before, next, table, without, htakes, -, hrun, hlisted⟩ :=
    exists_fieldRun_of_script hmodel hread (Or.inl rfl) rfl hfields (by decide)
  refine ⟨model, before, next, table, without, hmodel, htakes, hrun,
    hlisted (next.not_names_nil _), fun haliased => ?_⟩
  cases (hrun.aliased.mp haliased).1

end Spark

end QlikMigration
