import QlikMigration.Proofs.FrameNames
import QlikMigration.Proofs.JoinKeys
import QlikMigration.Proofs.LoadReading
import QlikMigration.Proofs.Runs

/-!
# Where the result of a join goes

A join before a load names the table it joins to. The load itself has no label,
so its table gets a generated name, and the join is a step of that table. A step
assigns the frame of the table it belongs to. So the result of a join is in the
frame of the generated name, and the frame of the table joined to stays as it
was; a later load that reads that table does not see the join.

It sees the join in one case only: the name of the table joined to is the
generated name, up to case, so that the two have one frame, and the block of the
generated name comes before that of the load that reads.
-/

namespace QlikMigration

open QlikMigration.Text QlikMigration.Script

/-! ## A load with a join has no label -/

namespace Script

/-- A parenthesis or white space follows the words of a join that has a table. -/
theorem startsWord_of_joinTable? {rest name : List Char}
    (h : joinTable? rest = some (some name)) :
    startsWord rest = false ∧ [':'].isPrefixOf? rest = none := by
  cases rest with
  | nil => exact ⟨rfl, rfl⟩
  | cons c rest =>
      by_cases hblank : isBlank c = true
      · exact ⟨isWord_of_isBlank hblank, isPrefixOf?_colon_of_isBlank hblank rest⟩
      · have hskip : skipBlanks (c :: rest) = c :: rest := List.dropWhile_cons_of_neg hblank
        by_cases hopening : '(' = c
        · subst hopening
          exact ⟨Spark.startsWord_of_mem_head? (by decide) rfl, rfl⟩
        · have hnone : ['('].isPrefixOf? (c :: rest) = none := by simp [List.isPrefixOf?, hopening]
          rw [joinTable?, hskip, hnone] at h
          dsimp only at h
          split at h <;> cases h

/-- A line that announces a join has no label. -/
theorem loadLabel?_of_readJoin {line : List Char} {join : Join}
    (h : readJoin line = .ok (some join)) : loadLabel? line = none := by
  obtain ⟨rest, name, hwords, hname, -, -⟩ := exists_joinTable?_of_readJoin h
  obtain ⟨hword, hcolon⟩ := startsWord_of_joinTable? hname
  obtain ⟨kind, words, hjoin, rfl⟩ := exists_joinWords hwords
  cases hjoin with
  | alone hjoin =>
      exact loadLabel?_word_append (hjoin.all_isWord Keyword.join.capital.upper) hword hcolon
  | named kind hfirst hgap hne hjoin =>
      rw [List.append_assoc, List.append_assoc]
      exact loadLabel?_eq_none (hfirst.all_isWord kind.keyword.capital.upper)
        (Separator.writes_gap_iff.mpr ⟨hgap, hne⟩) _

/-- A load of a script that has a join has no label, and its join names a table and no keys. -/
theorem label_of_join {script : String} {statements : List Statement}
    (h : readScript script = .ok statements) {load : Load} {join : Join}
    (hload : Statement.load load ∈ statements) (hjoin : load.join = some join) :
    load.label = none ∧ join.table ≠ "" ∧ join.keys = none := by
  obtain ⟨line, -, hline⟩ := exists_line_of_mem h hload
  obtain ⟨result, hresult, rfl⟩ := exists_readJoin_of_readLine hline
  obtain rfl : result = some join := hjoin
  obtain ⟨-, -, -, -, -, hkeys⟩ := exists_joinTable?_of_readJoin hresult
  refine ⟨?_, table_ne_empty_of_readJoin hresult, hkeys⟩
  show (loadLabel? line).map String.ofList = none
  rw [loadLabel?_of_readJoin hresult]
  rfl

theorem label_ne_empty {script : String} {statements : List Statement}
    (h : readScript script = .ok statements) {load : Load} {label : String}
    (hload : Statement.load load ∈ statements) (hlabel : load.label = some label) : label ≠ "" := by
  obtain ⟨line, -, hline⟩ := exists_line_of_mem h hload
  obtain ⟨join, -, rfl⟩ := exists_readJoin_of_readLine hline
  obtain ⟨name, hname, rfl⟩ := Option.map_eq_some_iff.mp hlabel
  simpa using (word_of_loadLabel? hname).1

end Script

/-! ## Generated names are new -/

namespace Builder

theorem nextName_inj {first second : Builder} (h : first.nextName = second.nextName) :
    first.generated = second.generated := by
  have hchars := congrArg String.toList h
  rw [nextName, nextName, String.toList_append, String.toList_append,
    List.append_cancel_left_eq] at hchars
  have hcount := congrArg (Nat.ofDigitChars 10 · 0) hchars
  simpa using hcount

/-- The name of a load is its label, or a new name is generated. -/
theorem nameFor_cases (builder : Builder) (load : Load) :
    (load.label = some (builder.nameFor load).1 ∧
        (builder.nameFor load).2.generated = builder.generated) ∨
      ((builder.nameFor load).1 = builder.nextName ∧
        (builder.nameFor load).2.generated = builder.generated + 1) := by
  unfold nameFor
  split
  · next label hlabel => exact Or.inl ⟨(Option.filter_eq_some_iff.mp hlabel).1, rfl⟩
  · exact Or.inr ⟨rfl, rfl⟩

theorem generated_of_addLoad {builder next : Builder} {load : Load}
    (h : builder.addLoad load = .ok next) :
    next.generated = (builder.nameFor load).2.generated := by
  simp only [addLoad] at h
  split at h
  · cases h
    rfl
  · cases h

/-- A load without a label uses up a name. -/
theorem generated_lt_of_addLoad {builder next : Builder} {load : Load} (hlabel : load.label = none)
    (h : builder.addLoad load = .ok next) : builder.generated < next.generated := by
  rw [generated_of_addLoad h]
  rcases nameFor_cases builder load with ⟨hsome, -⟩ | ⟨-, hmore⟩
  · rw [hlabel] at hsome
    cases hsome
  · omega

/-- Statements generate further names and forget none. -/
theorem generated_le_of_foldlM {builder after : Builder} {statements : List Statement}
    (h : statements.foldlM add builder = .ok after) : builder.generated ≤ after.generated := by
  induction statements generalizing builder with
  | nil =>
      cases h
      exact Nat.le_refl _
  | cons statement statements ih =>
      obtain ⟨next, hadd, hrest⟩ := foldlM_add_cons_eq_ok.mp h
      refine Nat.le_trans ?_ (ih hrest)
      cases statement with
      | load load =>
          rw [generated_of_addLoad hadd]
          rcases nameFor_cases builder load with ⟨-, hsame⟩ | ⟨-, hmore⟩ <;> omega
      | mapping load =>
          cases hadd
          exact Nat.le_refl _
      | assign assignment =>
          cases hadd
          exact Nat.le_refl _

/-- After a name has been generated, only a label can give it to a load once more. -/
theorem label_eq_of_nameFor_eq_nextName {builder before : Builder} {load : Load}
    (hlater : builder.generated < before.generated)
    (hname : (before.nameFor load).1 = builder.nextName) : load.label = some builder.nextName := by
  rcases nameFor_cases before load with ⟨hlabel, -⟩ | ⟨hgenerated, -⟩
  · rw [hlabel, hname]
  · have hsame := nextName_inj (hgenerated.symm.trans hname)
    omega

/-! ## The step of a join -/

/-- A join that names a table and no keys looks its keys up. -/
theorem joinStep_eq {join : Join} (htable : join.table ≠ "") (hkeys : join.keys = none)
    (builder : Builder) (name : String) :
    builder.joinStep name join =
      ⟨.join name join.table name join.kind.word
        (joinKeys builder.model.tables join.table name) none, [join.table, name]⟩ := by
  have hleft : (join.table == "") = false := beq_eq_false_iff_ne.mpr htable
  simp only [joinStep, hleft, hkeys, Bool.false_eq_true, if_false]

@[simp]
theorem joinStep_nameFor (builder : Builder) (load : Load) :
    (builder.nameFor load).2.joinStep = builder.joinStep := by
  funext name join
  rw [joinStep, previousTable, model_nameFor]
  rfl

/-- The step of a load's join is a step of its table. -/
theorem joinStep_mem_steps {builder : Builder} {name : String} {load : Load} {join : Join}
    {table : Table} (h : builder.tableOf name load = .ok table) (hjoin : load.join = some join) :
    builder.joinStep name join ∈ table.steps := by
  obtain ⟨origin, -, rfl⟩ := Spark.exists_originTable h
  simp [laterSteps, hjoin]

/-- A step that joins comes from a join of the load. -/
theorem join_ne_none_of_mem_steps {builder : Builder} {name : String} {load : Load} {table : Table}
    (h : builder.tableOf name load = .ok table) {step : Step} (hstep : step ∈ table.steps)
    {target left right kind : String} {keys : List String} {condition : Option String}
    (haction : step.action = .join target left right kind keys condition) : load.join ≠ none := by
  intro hnone
  obtain ⟨origin, horigin, rfl⟩ := Spark.exists_originTable h
  rcases List.mem_append.mp hstep with hselect | hlater
  · obtain ⟨source, columns, distinct, hselected⟩ :=
      (Spark.originTable_eq_ok horigin).2.1 step hselect
    rw [hselected] at haction
    cases haction
  · simp only [laterSteps, hnone, Option.map_none, Option.toList_none, List.nil_append,
      List.mem_append, Option.mem_toList, Option.map_eq_some_iff] at hlater
    rcases hlater with (⟨filter, -, rfl⟩ | ⟨grouping, -, rfl⟩) | hdistinct
    · cases haction
    · cases haction
    · split at hdistinct
      · obtain rfl := List.mem_singleton.mp hdistinct
        cases haction
      · cases hdistinct

end Builder

/-- The line of a join assigns the frame of its own table and reads the two frames that it
joins. -/
theorem Spark.operands_of_join (name left kind : String) (keys : List String) :
    ∃ line, stepLines (frameName name) (.join name left name kind keys none) = [line] ∧
      assigned line = frameName name ∧ operands line = [frameName left, frameName name] := by
  refine ⟨_, rfl, ?_⟩
  have hcall : ∀ line : String,
      line ∈ stepLines (frameName name) (.join name left name kind keys none) →
      assigned line = frameName name ∧ operands line = [frameName left, frameName name] := by
    intro line hline
    simp only [stepLines, List.mem_singleton, String.append_assoc] at hline
    obtain ⟨htarget, hoperands⟩ := operands_of_call hline (by simp)
    rw [joinArgument_frameName name (by simp)] at hoperands
    exact ⟨htarget, hoperands⟩
  exact hcall _ (List.mem_singleton_self _)

/-- The block of a resident table begins by taking the frame of its source. -/
theorem Spark.exists_tableBlock_of_resident {table : Table} {source : String}
    (htype : table.sourceType = LoadKind.resident.word) (hpath : table.sourcePath = some source)
    {block : List String} (h : tableBlock table = .ok block) :
    ∃ line rest, block = ("# Table: " ++ table.name) :: line :: rest ∧
      assigned line = frameName table.name ∧ operands line = [frameName source] := by
  have hlines : sourceLines table (frameName table.name) =
      .ok [frameName table.name ++ " = " ++ frameName source] := by
    simp [sourceLines, htype, LoadKind.word, residentLine, hpath, Except.map]
  rw [tableBlock, hlines] at h
  cases h
  have hline : frameName table.name ++ " = " ++ frameName source =
      frameName table.name ++ (" = " ++ (frameName source ++ "")) := by
    rw [String.append_empty, String.append_assoc]
  exact ⟨_, _, rfl, operands_of_frame hline rfl⟩

/-- A generated name has the frame of another table exactly if the names are the same up to
case. -/
theorem Spark.frameName_nextName_eq_iff {builder : Builder} {other : String} :
    frameName builder.nextName = frameName other ↔
      builder.nextName.toList.map Char.toLower = other.toList.map Char.toLower := by
  have hchars : builder.nextName.toList =
      ['T', 'a', 'b', 'l', 'e'] ++ Nat.toDigits 10 (builder.generated + 1) := by
    simp [Builder.nextName]
  apply frameName_eq_iff_of_isAlphanum
  · intro c hc
    rw [hchars, List.mem_append] at hc
    rcases hc with hletter | hdigit
    · exact List.all_eq_true.mp (by decide) c hletter
    · have hdigit := Nat.isDigit_of_mem_toDigits (by decide) (by decide) hdigit
      rw [Char.isAlphanum, hdigit, Bool.or_true]
  · rw [hchars]
    rfl

/-! ## Scripts -/

/-- In a block before that of a reader, a line of a step assigns the frame of a table. -/
def Spark.AssignedBefore {tables : Catalog Table} (stages : List (Stage tables)) (step : Step)
    (table reader : String) : Prop :=
  ∃ earlier later, List.Sublist [earlier, later] stages ∧ later.name = reader ∧
    step ∈ earlier.table.steps ∧
    ∃ line ∈ stepLines (frameName earlier.name) step.action,
      line ∈ earlier.block ∧ assigned line = frameName table

/-- One of the statements is a load with a label. -/
def Script.Labels (statements : List Statement) (label : String) : Prop :=
  ∃ load, Statement.load load ∈ statements ∧ load.label = some label

section Joined

variable {script : String} {model : DataModel} {front back : List Statement} {joined : Load}
  {join : Join} {builder next : Builder} {table : Table}

/-- The table of a joined load keeps its join until a later load has the generated name as its
label. -/
theorem Builder.joinStep_mem_iff
    (hread : readScript script = .ok (front ++ .load joined :: back))
    (hjoin : joined.join = some join) (htakes : Takes model front joined back builder next table) :
    ∃ recorded, model.tables.get? builder.nextName = some recorded ∧
      (builder.joinStep builder.nextName join ∈ recorded.steps ↔
        ¬ Labels back builder.nextName) := by
  obtain ⟨hlabel, htable, hkeys⟩ := label_of_join hread (by simp) hjoin
  have hname := nameFor_of_label_eq_none hlabel builder
  obtain ⟨after, hback, htables⟩ := htakes.later
  have hdefined := htakes.defined
  have hstays := htakes.stays
  rw [hname] at hdefined hstays
  by_cases hnamed : next.Names back builder.nextName
  · -- The last load of that name has it as its label, so it has no join.
    obtain ⟨middle, load, rest, before, last, rfl, hmiddle, hload, hrest, hloadName, hlast⟩ :=
      hnamed.exists_last hback
    have hlabelled : load.label = some builder.nextName :=
      label_eq_of_nameFor_eq_nextName (Nat.lt_of_lt_of_le
        (generated_lt_of_addLoad hlabel htakes.added) (generated_le_of_foldlM hmiddle)) hloadName
    obtain ⟨recorded, hrecorded, hput⟩ := addLoad_eq_ok hload
    refine ⟨recorded, ?_, iff_of_false (fun hstep => ?_) (not_not.mpr ⟨load, by simp, hlabelled⟩)⟩
    · rw [htables, get?_of_not_names hrest hlast, hput, hloadName]
      exact Catalog.get?_put_self _ _ _
    · have hjoins := join_ne_none_of_mem_steps hrecorded hstep
        (congrArg Step.action (joinStep_eq htable hkeys builder _))
      obtain ⟨other, hother⟩ := Option.ne_none_iff_exists'.mp hjoins
      have hunlabelled := (label_of_join hread (by simp) hother).1
      rw [hlabelled] at hunlabelled
      cases hunlabelled
  · refine ⟨table, hstays hnamed, iff_of_true ?_ ?_⟩
    · rw [← joinStep_nameFor builder joined]
      exact joinStep_mem_steps hdefined hjoin
    · rintro ⟨load, hload, hloadLabel⟩
      obtain ⟨middle, rest, rfl⟩ := List.append_of_mem hload
      obtain ⟨before, -, hmiddle, -, -⟩ := foldlM_add_append_cons_eq_ok hback
      have hne : builder.nextName ≠ "" := hname ▸ nameFor_ne_empty builder joined
      exact hnamed ⟨middle, load, rest, before, rfl, hmiddle,
        nameFor_of_label_eq_some hloadLabel hne before⟩

/-- The join of a load is seen in the frame of a table exactly if it is kept, the table has the
frame of the generated name, and the block of that name comes before that of the reader. -/
theorem Spark.assignedBefore_iff (hmodel : DataModel.ofScript script = .ok model)
    {stages : List (Stage model.tables)} (hstages : stages.map Stage.name = model.executionOrder)
    {name left kind : String} {keys : List String} {dependencies : List String} {recorded : Table}
    (hrecorded : model.tables.get? name = some recorded) {other reader : String} :
    AssignedBefore stages ⟨.join name left name kind keys none, dependencies⟩ other reader ↔
      ⟨.join name left name kind keys none, dependencies⟩ ∈ recorded.steps ∧
        frameName name = frameName other ∧ List.Sublist [name, reader] model.executionOrder := by
  obtain ⟨line, hlines, hassigned, -⟩ := operands_of_join name left kind keys
  rw [← hstages, pair_sublist_map_iff]
  constructor
  · rintro ⟨earlier, later, hsub, rfl, hstep, found, hfound, -, htarget⟩
    -- The right operand of a join is the table that it is a step of.
    obtain ⟨-, hbelongs⟩ := belongs_of_ofScript hmodel earlier.found
    obtain rfl : name = earlier.name := hbelongs _ hstep
    obtain rfl : earlier.table = recorded := Option.some.inj (earlier.found.symm.trans hrecorded)
    rw [hlines, List.mem_singleton] at hfound
    rw [hfound, hassigned] at htarget
    exact ⟨hstep, htarget, earlier, later, hsub, rfl, rfl⟩
  · rintro ⟨hstep, hframe, earlier, later, hsub, rfl, rfl⟩
    obtain rfl : earlier.table = recorded := Option.some.inj (earlier.found.symm.trans hrecorded)
    have hmem : line ∈ stepLines (frameName earlier.name)
        (.join earlier.name left earlier.name kind keys none) := by
      rw [hlines]
      exact List.mem_singleton_self line
    refine ⟨earlier, later, hsub, rfl, hstep, line, hmem, ?_, hassigned.trans hframe⟩
    obtain ⟨source, hblock⟩ := exists_tableBlock_of_ofScript hmodel earlier.found
    rw [Except.ok.inj (earlier.written.symm.trans hblock)]
    exact List.mem_append_right _ (List.mem_flatMap.mpr ⟨_, hstep, hmem⟩)

end Joined

/-- What a program does with a join and with a later load that reads the table joined to, given
the builder before the join, the one after the reader, the statements after the join and those
after the reader. -/
structure Spark.JoinRun (model : DataModel) (join : Join) (reader : String)
    (later back : List Statement) (builder after : Builder) (stages : List (Stage model.tables)) :
    Prop where
  names : stages.map Stage.name = model.executionOrder
  program : ∀ session, ∃ before after, Surrounds session model before after ∧
    Spark.program session model =
      .ok ("\n".intercalate (before ++ stages.flatMap Stage.lines ++ after))
  /-- The result of the join is assigned to the frame of the generated name. -/
  line : ∃ line,
    stepLines (frameName builder.nextName) (builder.joinStep builder.nextName join).action =
        [line] ∧
      assigned line = frameName builder.nextName ∧
      operands line = [frameName join.table, frameName builder.nextName]
  /-- The reader takes the frame of the table joined to, unless its name is given again. -/
  reads : ¬ after.Names back reader → ∃ stage ∈ stages, stage.name = reader ∧
    ∃ line rest, stage.block = ("# Table: " ++ reader) :: line :: rest ∧
      assigned line = frameName reader ∧ operands line = [frameName join.table]
  /-- The result of the join is in that frame before only if the name of the table joined to is
  the generated name up to case. -/
  seen : AssignedBefore stages (builder.joinStep builder.nextName join) join.table reader ↔
    builder.nextName.toList.map Char.toLower = join.table.toList.map Char.toLower ∧
      ¬ Labels later builder.nextName ∧
      List.Sublist [builder.nextName, reader] model.executionOrder

/-- The block of a load from a table begins with the frame of that table, unless the name of the
load is given again. -/
theorem Spark.exists_stage_of_takes {model : DataModel} {front back : List Statement}
    {reader : Load} {before after : Builder} {table : Table} {source : String}
    {stages : List (Stage model.tables)}
    (horder : Topological model.tables model.executionOrder)
    (hstages : stages.map Stage.name = model.executionOrder)
    (htakes : Builder.Takes model front reader back before after table)
    (hkind : reader.kind = .resident) (hsource : reader.source = some source)
    (hnamed : ¬ after.Names back (before.nameFor reader).1) :
    ∃ stage ∈ stages, stage.name = (before.nameFor reader).1 ∧
      ∃ line rest, stage.block = ("# Table: " ++ (before.nameFor reader).1) :: line :: rest ∧
        assigned line = frameName (before.nameFor reader).1 ∧
        operands line = [frameName source] := by
  obtain ⟨stage, hstage, hname, rfl⟩ := exists_stage_of_get? hstages horder (htakes.stays hnamed)
  obtain ⟨htableName, -, hpath⟩ := tableOf_eq_ok htakes.defined
  have htype := Builder.sourceType_of_tableOf htakes.defined
  rw [hkind] at htype
  have hblock := exists_tableBlock_of_resident htype
    ((hpath (Or.inr (Or.inl hkind))).trans hsource) stage.written
  rw [htableName] at hblock
  exact ⟨stage, hstage, hname, hblock⟩

/-- In a script with a model, let a load with a join be followed by a resident load of the table
joined to. The result of the join is assigned to the frame of a generated name, while the later
load reads the frame of the table. So the program assigns the result to the frame that is read,
before it is read, exactly if the two names are the same up to case, the generated name is not
the label of a later load, and its block comes before that of the reader. -/
theorem Spark.exists_joinRun_of_script {script : String} {model : DataModel}
    {front middle back : List Statement} {joined reader : Load} {join : Join} {label : String}
    (hmodel : DataModel.ofScript script = .ok model)
    (hread : readScript script =
      .ok (front ++ .load joined :: (middle ++ .load reader :: back)))
    (hjoin : joined.join = some join) (hkind : reader.kind = .resident)
    (hsource : reader.source = some join.table) (hlabel : reader.label = some label) :
    ∃ builder after stages, front.foldlM Builder.add {} = .ok builder ∧
      (front ++ Statement.load joined :: (middle ++ [.load reader])).foldlM Builder.add {} =
        .ok after ∧
      JoinRun model join label (middle ++ .load reader :: back) back builder after stages := by
  obtain ⟨statements, hstatements, hbuilt⟩ := DataModel.ofScript_eq_ok hmodel
  obtain rfl : statements = _ := Except.ok.inj (hstatements.symm.trans hread)
  obtain ⟨-, htable, hkeys⟩ := label_of_join hread (by simp) hjoin
  obtain ⟨builder, next, joinedTable, htakes⟩ := Builder.exists_takes hbuilt
  obtain ⟨stages, hstages, -, -, hprogram⟩ := DataModel.exists_stages_of_ofStatements hbuilt
  obtain ⟨recorded, hrecorded, hkept⟩ := Builder.joinStep_mem_iff hread hjoin htakes
  rw [← List.cons_append, ← List.append_assoc] at hbuilt
  obtain ⟨before, after, table, hreader⟩ := Builder.exists_takes hbuilt
  have hstep := Builder.joinStep_eq htable hkeys builder builder.nextName
  refine ⟨builder, after, stages, htakes.taken, ?_, hstages, hprogram, ?_, fun hnamed => ?_, ?_⟩
  · rw [← List.cons_append, ← List.append_assoc]
    exact Builder.foldlM_add_append_eq_ok.mpr ⟨before, hreader.taken,
      Builder.foldlM_add_cons_eq_ok.mpr ⟨after, hreader.added, rfl⟩⟩
  · rw [hstep]
    exact operands_of_join _ _ _ _
  · have hne := label_ne_empty hread (by simp) hlabel
    have hname := Builder.nameFor_of_label_eq_some hlabel hne before
    rw [← hname] at hnamed ⊢
    exact exists_stage_of_takes (DataModel.topological_of_ofStatements hbuilt) hstages hreader
      hkind hsource hnamed
  · rw [hstep, assignedBefore_iff hmodel hstages hrecorded, ← hstep, hkept,
      frameName_nextName_eq_iff]
    exact and_left_comm

/-- A join to a table that a later load reads. -/
def readerScript : String :=
  "T: LOAD a FROM t.csv;\nLEFT JOIN (T) LOAD a, c FROM u.csv;\nU: LOAD a RESIDENT T;"

/-- The load before the join. -/
def firstLoad : Load :=
  ⟨.external, some "T", [⟨"a", none, false⟩], some "t.csv", none, none, none, none, false, none⟩

/-- The load after the join. -/
def readerLoad : Load :=
  ⟨.resident, some "U", [⟨"a", none, false⟩], some "T", none, none, none, none, false, none⟩

/-- The later load reads the frame of the table, which the join has not changed. -/
theorem Spark.exists_joinRun_of_readerScript :
    ∃ model builder after stages, DataModel.ofScript readerScript = .ok model ∧
      JoinRun model ⟨.left, "T", none⟩ "U" [.load readerLoad] [] builder after stages ∧
      builder.nextName = "Table1" ∧
      (∃ stage ∈ stages, stage.name = "U" ∧
        ∃ line rest, stage.block = "# Table: U" :: line :: rest ∧ operands line = ["df_t"]) ∧
      ¬ AssignedBefore stages (builder.joinStep "Table1" ⟨.left, "T", none⟩) "T" "U" := by
  have hread : readScript readerScript =
      .ok ([.load firstLoad] ++ .load joinedLoad :: ([] ++ .load readerLoad :: [])) := by
    decide +kernel
  have hsourced : ∀ load,
      Statement.load load ∈ [.load firstLoad, .load joinedLoad, .load readerLoad] →
        ¬ load.Unsourced := by
    intro load hload hunsourced
    have hsource := hunsourced.2
    simp only [List.mem_cons, Statement.load.injEq, List.not_mem_nil, or_false] at hload
    rcases hload with rfl | rfl | rfl <;> cases hsource
  obtain ⟨model, hmodel⟩ := DataModel.exists_ofScript hread hsourced
  obtain ⟨builder, after, stages, hbuilder, -, hrun⟩ :=
    exists_joinRun_of_script hmodel hread rfl rfl rfl rfl
  have hnext : builder.nextName = "Table1" := by
    obtain ⟨next, hadd, hnil⟩ := Builder.foldlM_add_cons_eq_ok.mp hbuilder
    cases hnil
    have hadded : Builder.addLoad {} firstLoad = .ok builder := hadd
    have hgenerated : builder.generated = 0 := Builder.generated_of_addLoad hadded
    rw [Builder.nextName, hgenerated]
    decide
  refine ⟨model, builder, after, stages, hmodel, hrun, hnext, ?_, fun hseen => ?_⟩
  · obtain ⟨stage, hstage, hname, line, rest, hblock, -, hoperands⟩ :=
      hrun.reads (after.not_names_nil "U")
    exact ⟨stage, hstage, hname, line, rest, hblock, hoperands⟩
  · rw [← hnext] at hseen
    have hsame := (hrun.seen.mp hseen).1
    rw [hnext] at hsame
    exact absurd hsame (by decide)

end QlikMigration
