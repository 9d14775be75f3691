import QlikMigration.Proofs.ConversionFailure
import QlikMigration.Proofs.PlainText

/-!
# The keys of a join

A load that is joined to a table takes its keys from the columns that two tables
have in common. The left one is the table that the join names. The right one is
looked up under the name that was generated for the load, before the load itself
is recorded under it. So what the load shares with the left table does not
matter: the keys are what an earlier table of that name shares with it, and
there are none if there is no such table. A join without keys has the condition
`True`.
-/

namespace QlikMigration

open QlikMigration.Text QlikMigration.Script

/-! ## Fields that are names -/

theorem trimOf_eq_self {p : Char → Bool} {cs : List Char} (h : ∀ c ∈ cs, p c = false) :
    trimOf p cs = cs := by
  rw [trimOf_eq_iff]
  refine ⟨⟨[], [], by simp, List.forall_mem_nil _, List.forall_mem_nil _⟩, ?_, ?_⟩
  · exact fun c hc => h c (List.mem_of_mem_head? hc)
  · exact fun c hc => h c (List.mem_of_getLast? hc)

/-- A word is the name of its own column. -/
theorem fieldName_word {word : List Char} (hword : ∀ c ∈ word, isWord c = true) (hne : word ≠ []) :
    fieldName word = word := by
  have hblank : ∀ c ∈ word, isBlank c = false := fun c hc => isBlank_of_isWord (hword c hc)
  have hquote : ∀ quote, isWord quote = false → ∀ c ∈ word, (c == quote) = false :=
    fun quote hquote c hc => beq_eq_false_iff_ne.mpr (ne_of_isWord (hword c hc) hquote)
  have hunquoted : unquoted word = word := by
    rw [unquoted, trim, trimOf_eq_self hblank, trimOf_eq_self (hquote '"' (by decide)),
      trimOf_eq_self (hquote '\'' (by decide))]
  have hone : isOneWord word = true := by
    obtain ⟨c, rest, rfl⟩ := List.exists_cons_of_ne_nil hne
    have hrun : afterWordRun (c :: rest) = [] := List.dropWhile_eq_nil_iff.mpr hword
    rw [isOneWord, hrun, startsWord, hword c List.mem_cons_self]
    rfl
  rw [fieldName, if_pos (by rw [hunquoted]; exact hone), hunquoted]

/-- A field that is the name of a column. -/
structure Script.Field.Names (field : Field) (column : String) : Prop where
  expression : field.expression = column
  unnamed : field.givenName = none
  word : ∀ c ∈ column.toList, isWord c = true
  ne_empty : column ≠ ""

theorem Script.Field.Names.columnName {field : Field} {column : String}
    (h : field.Names column) : field.columnName = column := by
  have hne : column.toList ≠ [] := fun hnil => h.ne_empty (String.toList_eq_nil_iff.mp hnil)
  rw [Field.columnName, h.unnamed, h.expression, fieldName_word h.word hne]
  simp [present?]

theorem Script.Field.Names.isStar {field : Field} {column : String}
    (h : field.Names column) : field.isStar = false := by
  rw [Field.isStar, h.expression, beq_eq_false_iff_ne]
  rintro rfl
  exact absurd (h.word '*' (by decide)) (by decide)

/-- Fields that are names give columns of these names. -/
theorem map_name_fieldColumns {fields : List Field} {columns : List String}
    (h : List.Forall₂ Field.Names fields columns) :
    (fieldColumns fields).map Column.name = columns := by
  induction h with
  | nil => rfl
  | cons hfield _ ih =>
      rw [fieldColumns] at ih ⊢
      rw [List.filter_cons_of_pos (by simp [hfield.isStar]), List.map_cons, List.map_cons, ih]
      exact congrArg (· :: _) hfield.columnName

/-! ## Common columns -/

theorem mem_sortedNames {name : String} {names : List String} :
    name ∈ sortedNames names ↔ name ∈ names := by
  rw [sortedNames, List.mem_mergeSort, List.mem_eraseDups]

theorem mem_commonColumns {a b : Table} {column : String} :
    column ∈ commonColumns a b ↔ column ∈ a.columnNames ∧ column ∈ b.columnNames := by
  rw [commonColumns, mem_sortedNames, List.mem_filter, List.contains_iff_mem]

/-- The keys of a join are shared with the table under the right name, if there is one. -/
theorem mem_joinKeys {tables : Catalog Table} {left right column : String} {table : Table}
    (hleft : tables.get? left = some table) :
    column ∈ joinKeys tables left right ↔
      column ∈ table.columnNames ∧
        column ∈ ((tables.get? right).map Table.columnNames).getD [] := by
  rw [joinKeys, hleft]
  cases tables.get? right with
  | none => simp
  | some other => simp [mem_commonColumns]

/-- A join has the condition `True` exactly if it has no keys. -/
theorem Spark.joinCondition_eq_true_iff {left right : String} {keys : List String} :
    joinCondition left right keys none = "True" ↔ keys = [] := by
  cases keys with
  | nil => exact iff_of_true rfl rfl
  | cons key keys =>
      refine iff_of_false (fun htrue => ?_) (List.cons_ne_nil key keys)
      have hchars := congrArg String.toList htrue
      simp [joinCondition, String.toList_intercalate] at hchars

/-! ## A joined load -/

/-- A load of named columns from a file, under a label or with a join. -/
structure Script.Load.LoadsColumns (load : Load) (label : Option String) (join : Option Join)
    (columns : List String) : Prop where
  kind : load.kind = .external
  label : load.label = label
  join : load.join = join
  fields : List.Forall₂ Field.Names load.fields columns

namespace Builder

/-- The next name to be generated. -/
def nextName (builder : Builder) : String :=
  "Table" ++ toString (builder.generated + 1)

/-- The columns of the table that has the next generated name already; none if no table has. -/
def earlierColumns (builder : Builder) : List String :=
  ((builder.model.tables.get? builder.nextName).map Table.columnNames).getD []

variable {builder : Builder} {load : Load} {columns : List String}

/-- A load of named columns from a file is recorded with these columns. -/
theorem exists_tableOf {label : Option String} {join : Option Join}
    (hload : load.LoadsColumns label join columns) (builder : Builder) (name : String) :
    ∃ recorded, builder.tableOf name load = .ok recorded ∧ recorded.columnNames = columns ∧
      recorded.steps = builder.laterSteps name load recorded.columns := by
  have horigin : builder.originTable name load =
      .ok { name, sourceType := load.kind.word, sourcePath := load.source,
            columns := fieldColumns load.fields } := by
    rw [originTable, hload.kind]
  rw [tableOf, horigin]
  exact ⟨_, rfl, map_name_fieldColumns hload.fields, rfl⟩

/-- The first step of a joined load is its join, with the keys found before the load is
recorded. -/
theorem head?_laterSteps {table : String} {kind : JoinKind}
    (hload : load.LoadsColumns none (some ⟨kind, table, none⟩) columns) (htable : table ≠ "")
    (builder : Builder) (name : String) (selected : List Column) :
    (builder.laterSteps name load selected).head? =
      some ⟨.join name table name kind.word (joinKeys builder.model.tables table name) none,
        [table, name]⟩ := by
  have hleft : (table == "") = false := beq_eq_false_iff_ne.mpr htable
  simp [laterSteps, hload.join, joinStep, hleft]

/-- A load without a label gets the next generated name. -/
theorem nameFor_of_label_eq_none (h : load.label = none) (builder : Builder) :
    (builder.nameFor load).1 = builder.nextName := by
  rw [nameFor, h]
  rfl

/-- A load with a label is put under it. -/
theorem nameFor_of_label_eq_some {label : String} (h : load.label = some label) (hne : label ≠ "")
    (builder : Builder) : (builder.nameFor load).1 = label := by
  have hpresent : present? load.label = some label := by
    simp [present?, h, hne]
  rw [nameFor, hpresent]

/-- After a labelled load there is a table under its label, with its columns if nothing
follows. -/
theorem exists_get?_label {start : Builder} {front middle : List Statement} {label : String}
    (hload : load.LoadsColumns (some label) none columns) (hlabel : label ≠ "")
    (h : (front ++ .load load :: middle).foldlM add start = .ok builder) :
    ∃ left, builder.model.tables.get? label = some left ∧
      (middle = [] → left.columnNames = columns) := by
  obtain ⟨before, next, -, hadd, hmiddle⟩ := foldlM_add_append_cons_eq_ok h
  obtain ⟨table, htable, hmodel⟩ := addLoad_eq_ok hadd
  rw [nameFor_of_label_eq_some hload.label hlabel] at htable hmodel
  have hput : next.model.tables.get? label = some table := by
    rw [hmodel]
    exact Catalog.get?_put_self _ _ _
  obtain ⟨left, hleft⟩ := Catalog.exists_get?_of_mem_names
    (mem_names_of_foldlM (Catalog.mem_names_of_get? hput) hmiddle)
  refine ⟨left, hleft, ?_⟩
  rintro rfl
  cases hmiddle
  obtain rfl : left = table := Option.some.inj (hleft.symm.trans hput)
  obtain ⟨recorded, hrecorded, hcolumns, -⟩ :=
    exists_tableOf hload (before.nameFor load).2 label
  obtain rfl : left = recorded := Except.ok.inj (htable.symm.trans hrecorded)
  exact hcolumns

/-- A joined load is recorded under the next generated name, with the keys that were known
before it. -/
theorem exists_get?_nextName {next : Builder} {table : String} {kind : JoinKind}
    (hload : load.LoadsColumns none (some ⟨kind, table, none⟩) columns) (htable : table ≠ "")
    (h : builder.addLoad load = .ok next) :
    ∃ recorded, next.model.tables.get? builder.nextName = some recorded ∧
      recorded.columnNames = columns ∧
      recorded.steps.head? = some ⟨.join builder.nextName table builder.nextName kind.word
        (joinKeys builder.model.tables table builder.nextName) none,
          [table, builder.nextName]⟩ := by
  obtain ⟨recorded, hrecorded, hmodel⟩ := addLoad_eq_ok h
  rw [nameFor_of_label_eq_none hload.label] at hrecorded hmodel
  obtain ⟨built, hbuilt, hcolumns, hsteps⟩ :=
    exists_tableOf hload (builder.nameFor load).2 builder.nextName
  obtain rfl : recorded = built := Except.ok.inj (hrecorded.symm.trans hbuilt)
  refine ⟨recorded, ?_, hcolumns, ?_⟩
  · rw [hmodel]
    exact Catalog.get?_put_self _ _ _
  · rw [hsteps, head?_laterSteps hload htable, model_nameFor]

end Builder

/-! ## Scripts -/

/-- In a script with a model, let a labelled load be followed by a load of named columns from
a file that is joined to its table. The keys of the join are the columns that the table
shares with an earlier table of the generated name. So they are the columns that the table
shares with the joined load exactly if the two have the same columns of the table, and the
condition of the join is `True` exactly if the earlier table has none of them. -/
theorem joinKeys_of_script {script : String} {model : DataModel}
    {front middle back : List Statement} {labelled joined : Load} {label : String}
    {kind : JoinKind} {columns joinedColumns : List String}
    (hmodel : DataModel.ofScript script = .ok model)
    (hread : readScript script =
      .ok (front ++ .load labelled :: (middle ++ .load joined :: back)))
    (hlabel : label ≠ "") (hlabelled : labelled.LoadsColumns (some label) none columns)
    (hjoined : joined.LoadsColumns none (some ⟨kind, label, none⟩) joinedColumns) :
    ∃ (builder next : Builder) (left recorded : Table) (keys : List String),
      (front ++ .load labelled :: middle).foldlM Builder.add {} = .ok builder ∧
      builder.model.tables.get? label = some left ∧
      (middle = [] → left.columnNames = columns) ∧
      builder.addLoad joined = .ok next ∧
      next.model.tables.get? builder.nextName = some recorded ∧
      recorded.columnNames = joinedColumns ∧
      recorded.steps.head? =
        some ⟨.join builder.nextName label builder.nextName kind.word keys none,
        [label, builder.nextName]⟩ ∧
      (∀ column, column ∈ keys ↔
        column ∈ left.columnNames ∧ column ∈ builder.earlierColumns) ∧
      ((∀ column, column ∈ keys ↔ column ∈ left.columnNames ∧ column ∈ joinedColumns) ↔
        ∀ column ∈ left.columnNames, (column ∈ joinedColumns ↔ column ∈ builder.earlierColumns)) ∧
      (Spark.joinCondition (Spark.frameName label) (Spark.frameName builder.nextName) keys none =
          "True" ↔
        ∀ column ∈ left.columnNames, column ∉ builder.earlierColumns) := by
  obtain ⟨statements, hstatements, hbuilt⟩ := DataModel.ofScript_eq_ok hmodel
  obtain rfl : statements = _ := Except.ok.inj (hstatements.symm.trans hread)
  obtain ⟨taken, htaken, -⟩ := DataModel.ofStatements_eq_ok hbuilt
  -- The builder before the join has taken in the labelled load and what follows it.
  rw [← List.cons_append, ← List.append_assoc] at htaken
  obtain ⟨builder, next, hbefore, hadd, -⟩ := Builder.foldlM_add_append_cons_eq_ok htaken
  obtain ⟨left, hleft, hcolumns⟩ := Builder.exists_get?_label hlabelled hlabel hbefore
  obtain ⟨recorded, hrecorded, hnames, hstep⟩ := Builder.exists_get?_nextName hjoined hlabel hadd
  have hkeys : ∀ column, column ∈ joinKeys builder.model.tables label builder.nextName ↔
      column ∈ left.columnNames ∧ column ∈ builder.earlierColumns :=
    fun column => mem_joinKeys hleft
  refine ⟨builder, next, left, recorded, _, hbefore, hleft, hcolumns, hadd, hrecorded, hnames,
    hstep, hkeys, ?_, ?_⟩
  · constructor
    · intro hshared column hcolumn
      have hboth := (hkeys column).symm.trans (hshared column)
      simpa [hcolumn] using hboth.symm
    · intro hsame column
      rw [hkeys]
      exact and_congr_right fun hcolumn => (hsame column hcolumn).symm
  · rw [Spark.joinCondition_eq_true_iff, List.eq_nil_iff_forall_not_mem]
    refine forall_congr' fun column => ?_
    rw [hkeys, not_and]

/-- Two loads that share the column `a`. -/
def sharedColumnScript : String :=
  "T: LOAD a, b FROM t.csv;\nLEFT JOIN (T) LOAD a, c FROM u.csv;"

/-- The load that defines the table. -/
def labelledLoad : Load :=
  ⟨.external, some "T", [⟨"a", none, false⟩, ⟨"b", none, false⟩], some "t.csv", none, none, none,
    none, false, none⟩

/-- The load that is joined to it. -/
def joinedLoad : Load :=
  ⟨.external, none, [⟨"a", none, false⟩, ⟨"c", none, false⟩], some "u.csv", none, none, none,
    some ⟨.left, "T", none⟩, false, none⟩

theorem joinKeys_of_sharedColumnScript :
    readScript sharedColumnScript = .ok [.load labelledLoad, .load joinedLoad] ∧
      ∃ (builder next : Builder) (left recorded : Table),
        builder.model.tables.get? "T" = some left ∧ left.columnNames = ["a", "b"] ∧
        builder.addLoad joinedLoad = .ok next ∧
        next.model.tables.get? "Table1" = some recorded ∧ recorded.columnNames = ["a", "c"] ∧
        recorded.steps.head? =
          some ⟨.join "Table1" "T" "Table1" "left" [] none, ["T", "Table1"]⟩ := by
  have hread : readScript sharedColumnScript = .ok [.load labelledLoad, .load joinedLoad] := by
    decide +kernel
  have hsourced : ∀ load, Statement.load load ∈ [.load labelledLoad, .load joinedLoad] →
      ¬ load.Unsourced := by
    intro load hload hunsourced
    have hkind := hunsourced.1
    simp only [List.mem_cons, Statement.load.injEq, List.not_mem_nil, or_false] at hload
    rcases hload with rfl | rfl <;> cases hkind
  have hnames : ∀ column : String, column ∈ ["a", "b", "c"] →
      Field.Names ⟨column, none, false⟩ column := by
    intro column hcolumn
    have hall : ∀ column ∈ ["a", "b", "c"],
        column.toList.all isWord = true ∧ column ≠ "" := by decide
    obtain ⟨hword, hne⟩ := hall column hcolumn
    exact ⟨rfl, rfl, List.all_eq_true.mp hword, hne⟩
  have hlabelled : labelledLoad.LoadsColumns (some "T") none ["a", "b"] :=
    ⟨rfl, rfl, rfl, .cons (hnames _ (by decide)) (.cons (hnames _ (by decide)) .nil)⟩
  have hjoined : joinedLoad.LoadsColumns none (some ⟨.left, "T", none⟩) ["a", "c"] :=
    ⟨rfl, rfl, rfl, .cons (hnames _ (by decide)) (.cons (hnames _ (by decide)) .nil)⟩
  have hsplit : readScript sharedColumnScript =
      .ok ([] ++ .load labelledLoad :: ([] ++ .load joinedLoad :: [])) := hread
  obtain ⟨model, hmodel⟩ := DataModel.exists_ofScript hread hsourced
  obtain ⟨builder, next, left, recorded, keys, hbuilder, hleft, hcolumns, hadd, hrecorded,
    hjoinedColumns, hstep, hkeys, -, -⟩ :=
      joinKeys_of_script hmodel hsplit (by decide) hlabelled hjoined
  -- Before the join there is only the table under its label.
  obtain ⟨table, htable, -, -⟩ := Builder.exists_tableOf hlabelled {} "T"
  have hfold : [Statement.load labelledLoad].foldlM Builder.add {} =
      .ok ({ model := { tables := .ofList [("T", table)] } } : Builder) := by
    have hname : ({} : Builder).nameFor labelledLoad = ("T", {}) := rfl
    show (Builder.addLoad {} labelledLoad).bind _ = _
    rw [Builder.addLoad, hname]
    dsimp only
    rw [htable]
    rfl
  obtain rfl := Except.ok.inj (hbuilder.symm.trans hfold)
  have hnext :
      ({ model := { tables := .ofList [("T", table)] } } : Builder).nextName = "Table1" := by
    show "Table" ++ toString 1 = "Table1"
    decide
  rw [hnext] at hrecorded hstep
  obtain rfl : keys = [] := by
    rw [List.eq_nil_iff_forall_not_mem]
    intro column hcolumn
    have hearlier := ((hkeys column).mp hcolumn).2
    cases hearlier
  exact ⟨hread, _, next, left, recorded, hleft, hcolumns rfl, hadd,
    hrecorded, hjoinedColumns, hstep⟩

end QlikMigration
