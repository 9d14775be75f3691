import QlikMigration.Proofs.ConversionFailure

/-!
# Which data frame a step reads

The block of a table is a list of lines that assign the table's data frame, one
line for each step. Every step but one reads the frame that it assigns, so it is
applied to what the step before it left; a join reads it as its right operand.
An aggregation reads the frame that is named after the source of the load, so
what the steps before it left is lost, unless that frame has the same name.

Whether a block is one chain is therefore a matter of two names: it is, exactly
if there is no aggregation or the two names give the same frame.
-/

namespace QlikMigration.Spark

open QlikMigration.Text QlikMigration.Script

/-! ## Lines -/

/-- The variable that a line assigns. -/
def assigned (line : String) : String :=
  String.ofList (wordRun line.toList)

/-- The first argument of a join, given a call with its dot. -/
def joinArgument (call : List Char) : List String :=
  match ['.', 'j', 'o', 'i', 'n', '('].isPrefixOf? call with
  | some arguments => [String.ofList (wordRun arguments)]
  | none => []

/-- The variables that a line reads: the one whose method is called, and in a join its first
argument. -/
def operands (line : String) : List String :=
  match [' ', '=', ' '].isPrefixOf? (afterWordRun line.toList) with
  | some body => String.ofList (wordRun body) :: joinArgument (afterWordRun body)
  | none => []

/-- Letters and digits are ASCII characters. -/
theorem toNat_lt_of_isAlphanum {c : Char} (h : c.isAlphanum = true) : c.toNat < 128 := by
  have hbelow : ∀ high : Char, c.val ≤ high.val → high.toNat < 128 → c.toNat < 128 :=
    fun high hle hhigh => Nat.lt_of_le_of_lt hle hhigh
  rcases Bool.or_eq_true_iff.mp h with hletter | hdigit
  · rcases Bool.or_eq_true_iff.mp hletter with hupper | hlower
    · exact hbelow 'Z' (of_decide_eq_true hupper).2 (by decide)
    · exact hbelow 'z' (of_decide_eq_true (Bool.and_eq_true_iff.mp hlower).2) (by decide)
  · exact hbelow '9' (of_decide_eq_true (Bool.and_eq_true_iff.mp hdigit).2) (by decide)

/-- A character of a data frame's name is a word character. -/
theorem isWord_frameChar (c : Char) : isWord (frameChar c) = true := by
  have hall : ∀ n < 128, ((Char.ofNat n).isAlphanum || Char.ofNat n == '_') = true →
      isWord (Char.ofNat n).toLower = true := by decide
  unfold frameChar
  split
  · next hplain =>
    have hascii : c.toNat < 128 := by
      rcases Bool.or_eq_true_iff.mp hplain with halphanum | hunderscore
      · exact toNat_lt_of_isAlphanum halphanum
      · obtain rfl := eq_of_beq hunderscore
        decide
    have hword := hall c.toNat hascii
    rw [Char.ofNat_toNat] at hword
    exact hword hplain
  · decide

/-- The name of a data frame is a word. -/
theorem all_isWord_frameName (table : String) : (frameName table).toList.all isWord = true := by
  have hname : (table.toList.map frameChar).all isWord = true := by
    rw [List.all_map]
    exact List.all_eq_true.mpr fun c _ => isWord_frameChar c
  rw [frameName, String.toList_ofList]
  cases hchars : table.toList.map frameChar with
  | nil => decide
  | cons c rest =>
      rw [hchars] at hname
      dsimp only
      split
      · exact hname
      · exact hname

/-- No word goes on where another character stands. -/
theorem startsWord_of_mem_head? {c : Char} {cs : List Char} (hc : isWord c = false)
    (hmem : c ∈ cs.head?) : startsWord cs = false := by
  cases cs with
  | nil => rfl
  | cons d rest =>
      obtain rfl : d = c := Option.some.inj hmem
      exact hc

/-- A line assigns a frame what stands after the name of a frame. -/
theorem operands_of_frame {name source call line : String}
    (hline : line = frameName name ++ (" = " ++ (frameName source ++ call)))
    (hcall : startsWord call.toList = false) :
    assigned line = frameName name ∧
      operands line = frameName source :: joinArgument call.toList := by
  have hspace : startsWord (' ' :: '=' :: ' ' :: ((frameName source).toList ++ call.toList)) =
      false := startsWord_of_mem_head? (by decide) rfl
  have hchars : line.toList =
      (frameName name).toList ++
        ' ' :: '=' :: ' ' :: ((frameName source).toList ++ call.toList) := by
    rw [hline]
    simp
  obtain ⟨htarget, hbody⟩ := wordRun_append (all_isWord_frameName name) hspace
  obtain ⟨hrun, hafter⟩ := wordRun_append (all_isWord_frameName source) hcall
  constructor
  · rw [assigned, hchars, htarget, String.ofList_toList]
  · rw [operands, hchars, hbody]
    show String.ofList (wordRun ((frameName source).toList ++ call.toList)) ::
      joinArgument (afterWordRun ((frameName source).toList ++ call.toList)) = _
    rw [hrun, hafter, String.ofList_toList]

/-- A line assigns a frame what a method of a frame returns. -/
theorem operands_of_call {name source call line : String}
    (hline : line = frameName name ++ (" = " ++ (frameName source ++ call)))
    (hcall : '.' ∈ call.toList.head?) :
    assigned line = frameName name ∧ operands line = frameName source :: joinArgument call.toList :=
  operands_of_frame hline (startsWord_of_mem_head? (by decide) hcall)

/-- The first argument of a join is the frame that stands there. -/
theorem joinArgument_frameName (table : String) {rest : String} (hrest : ',' ∈ rest.toList.head?) :
    joinArgument (".join(" ++ (frameName table ++ rest)).toList = [frameName table] := by
  have hcomma : startsWord rest.toList = false := startsWord_of_mem_head? (by decide) hrest
  have hcall : ['.', 'j', 'o', 'i', 'n', '('].isPrefixOf?
      (".join(" ++ (frameName table ++ rest)).toList =
        some ((frameName table).toList ++ rest.toList) := by
    simp [List.isPrefixOf?]
  rw [joinArgument, hcall]
  show [String.ofList (wordRun ((frameName table).toList ++ rest.toList))] = _
  rw [(wordRun_append (all_isWord_frameName table) hcomma).1, String.ofList_toList]

/-! ## Steps -/

/-- Whether an action groups rows. -/
def isAggregation : Action → Bool
  | .aggregate .. => true
  | _ => false

/-- What the steps of a table can be, given its name and the source that its load groups. -/
def Belongs (name source : String) : Action → Prop
  | .select .. | .filter .. => True
  | .join _ _ right _ _ _ => right = name
  | .aggregate _ origin _ _ => origin = source
  | .union .. | .other _ => False

/-- A step assigns the frame of its table. It reads that frame, unless it groups: then it
reads the frame of the source. -/
theorem operands_of_mem_stepLines {name source : String} {action : Action}
    (haction : Belongs name source action) {line : String}
    (hline : line ∈ stepLines (frameName name) action) :
    assigned line = frameName name ∧
      (isAggregation action = false → frameName name ∈ operands line) ∧
      (isAggregation action = true → operands line = [frameName source]) := by
  have hown : ∀ call : String, '.' ∈ call.toList.head? →
      line = frameName name ++ (" = " ++ (frameName name ++ call)) →
      assigned line = frameName name ∧ frameName name ∈ operands line := by
    intro call hcall heq
    obtain ⟨htarget, hoperands⟩ := operands_of_call heq hcall
    rw [hoperands]
    exact ⟨htarget, List.mem_cons_self⟩
  cases action with
  | select table origin columns distinct =>
      have hreads : assigned line = frameName name ∧ frameName name ∈ operands line := by
        by_cases hdistinct : distinct = true
        · rw [stepLines, if_pos hdistinct] at hline
          simp only [List.mem_singleton, String.append_assoc] at hline
          exact hown ".distinct()" rfl hline
        · rw [stepLines, if_neg hdistinct] at hline
          split at hline
          · cases hline
          · simp only [List.mem_singleton, String.append_assoc] at hline
            exact hown _ (by simp) hline
      exact ⟨hreads.1, fun _ => hreads.2, nofun⟩
  | filter table origin condition =>
      simp only [stepLines, List.mem_singleton, String.append_assoc] at hline
      obtain ⟨htarget, hoperand⟩ := hown _ (by simp) hline
      exact ⟨htarget, fun _ => hoperand, nofun⟩
  | join table left right kind keys condition =>
      obtain rfl : right = name := haction
      simp only [stepLines, List.mem_singleton, String.append_assoc] at hline
      obtain ⟨htarget, hoperands⟩ := operands_of_call hline (by simp)
      rw [joinArgument_frameName right (by simp)] at hoperands
      rw [hoperands]
      exact ⟨htarget, fun _ => List.mem_cons_of_mem _ List.mem_cons_self, nofun⟩
  | aggregate table origin grouping aggregations =>
      obtain rfl : origin = source := haction
      simp only [stepLines, List.mem_singleton, String.append_assoc] at hline
      obtain ⟨htarget, hoperands⟩ := operands_of_call hline (by simp)
      refine ⟨htarget, nofun, fun _ => ?_⟩
      rw [hoperands]
      simp [joinArgument, List.isPrefixOf?]
  | union table sources => cases hline
  | other operation => cases hline

/-- An aggregation has a line. -/
theorem exists_mem_stepLines {action : Action} (h : isAggregation action = true) (frame : String) :
    ∃ line, line ∈ stepLines frame action := by
  cases action with
  | aggregate table source grouping aggregations => exact ⟨_, List.mem_singleton_self _⟩
  | select | filter | join | union | other => cases h

/-! ## The steps of a table -/

section Table

variable {builder : Builder} {name : String} {load : Load} {table : Table}

/-- A table that a load defines has the steps of its origin and then the later steps. -/
theorem exists_originTable (h : builder.tableOf name load = .ok table) :
    ∃ origin, builder.originTable name load = .ok origin ∧
      table = { origin with
        steps := origin.steps ++ builder.laterSteps name load origin.columns } := by
  rw [Builder.tableOf] at h
  cases horigin : builder.originTable name load with
  | error cause =>
      rw [horigin] at h
      cases h
  | ok origin =>
      rw [horigin] at h
      cases h
      exact ⟨origin, rfl, rfl⟩

/-- What a table is before joins, filters and groupings. -/
theorem originTable_eq_ok (h : builder.originTable name load = .ok table) :
    table.name = name ∧ (∀ step ∈ table.steps, ∃ source columns distinct,
      step.action = .select name source columns distinct) ∧
      (load.kind = .external ∨ load.kind = .resident ∨ load.source = none →
        table.sourcePath = load.source) := by
  have hnone : ∀ step ∈ ([] : List Step), ∃ source columns distinct,
      step.action = .select name source columns distinct :=
    fun _ hstep => absurd hstep List.not_mem_nil
  unfold Builder.originTable at h
  cases hkind : load.kind with
  | external =>
      simp only [hkind, Except.ok.injEq] at h
      subst h
      exact ⟨rfl, hnone, fun _ => rfl⟩
  | resident =>
      cases hsource : load.source with
      | none => simp [hkind, hsource] at h
      | some source =>
          simp only [hkind, hsource, Except.ok.injEq] at h
          subst h
          refine ⟨rfl, fun step hstep => ?_, fun _ => rfl⟩
          obtain rfl := List.mem_singleton.mp hstep
          exact ⟨_, _, _, rfl⟩
  | inlined =>
      simp only [hkind, Except.ok.injEq] at h
      subst h
      exact ⟨rfl, hnone, fun hcases => (by simpa using hcases : load.source = none).symm⟩
  | mapping =>
      simp only [hkind, Except.ok.injEq] at h
      subst h
      exact ⟨rfl, hnone, fun hcases => (by simpa using hcases : load.source = none).symm⟩

/-- The steps after the origin of a table belong to it. -/
theorem belongs_of_mem_laterSteps {columns : List Column} {step : Step}
    (hstep : step ∈ builder.laterSteps name load columns) :
    Belongs name ((present? load.source).getD name) step.action := by
  simp only [Builder.laterSteps, List.mem_append, Option.mem_toList,
    Option.map_eq_some_iff] at hstep
  rcases hstep with ((⟨join, -, rfl⟩ | ⟨condition, -, rfl⟩) | ⟨grouping, -, rfl⟩) | hdistinct
  · exact rfl
  · exact trivial
  · exact rfl
  · split at hdistinct
    · obtain rfl := List.mem_singleton.mp hdistinct
      exact trivial
    · cases hdistinct

/-- What a table is that a load defines. -/
theorem tableOf_eq_ok (h : builder.tableOf name load = .ok table) :
    table.name = name ∧
      (∀ step ∈ table.steps, Belongs name ((present? load.source).getD name) step.action) ∧
      (load.kind = .external ∨ load.kind = .resident ∨ load.source = none →
        table.sourcePath = load.source) := by
  obtain ⟨origin, horigin, rfl⟩ := exists_originTable h
  obtain ⟨hname, hselects, hpath⟩ := originTable_eq_ok horigin
  refine ⟨hname, fun step hstep => ?_, hpath⟩
  rcases List.mem_append.mp hstep with hselect | hlater
  · obtain ⟨source, columns, distinct, haction⟩ := hselects step hselect
    rw [haction]
    exact trivial
  · exact belongs_of_mem_laterSteps hlater

end Table

/-- A load that is read comes from a file or a table, or it has no source. -/
theorem kind_of_readLine {line : List Char} {load : Load}
    (h : readLine line = .ok (some (.load load))) :
    load.kind = .external ∨ load.kind = .resident ∨ load.source = none := by
  obtain ⟨hkind, hsource⟩ := origin_of_readLine h
  rw [hkind, hsource, readOrigin]
  split_ifs
  · exact Or.inl rfl
  · exact Or.inl rfl
  · exact Or.inr (Or.inl rfl)
  · exact Or.inr (Or.inr rfl)
  · exact Or.inl rfl

/-! ## Scripts -/

/-- A table of a script's model is known by its name, and its steps belong to it. -/
theorem belongs_of_ofScript {script : String} {model : DataModel} {name : String} {table : Table}
    (hmodel : DataModel.ofScript script = .ok model)
    (htable : model.tables.get? name = some table) :
    table.name = name ∧ ∀ step ∈ table.steps,
      Belongs name ((present? table.sourcePath).getD name) step.action := by
  obtain ⟨before, load, line, -, hline, -, hdefined⟩ := DataModel.exists_line_of_get? hmodel htable
  obtain ⟨hname, hsteps, hpath⟩ := tableOf_eq_ok hdefined
  rw [hpath (kind_of_readLine hline)]
  exact ⟨hname, hsteps⟩

/-- The block of a table in the model of a script: what sets up its frame, then its steps. -/
theorem exists_tableBlock_of_ofScript {script : String} {model : DataModel} {name : String}
    {table : Table} (hmodel : DataModel.ofScript script = .ok model)
    (htable : model.tables.get? name = some table) :
    ∃ source, tableBlock table = .ok (("# Table: " ++ name) :: source ++
      table.steps.flatMap fun step => stepLines (frameName name) step.action) := by
  obtain ⟨statements, -, hbuilt⟩ := DataModel.ofScript_eq_ok hmodel
  obtain ⟨lines, hlines⟩ :=
    exists_tableBlock (DataModel.sourced_of_ofStatements hbuilt name table htable)
  obtain ⟨rfl, -⟩ := belongs_of_ofScript hmodel htable
  obtain ⟨source, -, rfl⟩ := tableBlock_eq_ok hlines
  exact ⟨source, hlines⟩

/-- The frame that an aggregation of a table reads. -/
def groupedFrame (name : String) (table : Table) : String :=
  frameName ((present? table.sourcePath).getD name)

/-- The block of a table in the model of a script has lines for its steps. Each of them
assigns the frame of the table. A line reads that frame, unless it groups: then it reads the
frame of the source and nothing else. So all lines read the frame of the table exactly if
there is no aggregation, or the source has the same frame. -/
theorem operands_of_script {script : String} {model : DataModel} {name : String} {table : Table}
    (hmodel : DataModel.ofScript script = .ok model)
    (htable : model.tables.get? name = some table) :
    (∃ source, tableBlock table = .ok (("# Table: " ++ name) :: source ++
        table.steps.flatMap fun step => stepLines (frameName name) step.action)) ∧
      (∀ step ∈ table.steps, ∀ line ∈ stepLines (frameName name) step.action,
        assigned line = frameName name ∧
        (isAggregation step.action = false → frameName name ∈ operands line) ∧
        (isAggregation step.action = true → operands line = [groupedFrame name table])) ∧
      ((∀ step ∈ table.steps, ∀ line ∈ stepLines (frameName name) step.action,
          frameName name ∈ operands line) ↔
        ((∃ step ∈ table.steps, isAggregation step.action = true) →
          groupedFrame name table = frameName name)) := by
  obtain ⟨hname, hsteps⟩ := belongs_of_ofScript hmodel htable
  have hlines : ∀ step ∈ table.steps, ∀ line ∈ stepLines (frameName name) step.action,
      assigned line = frameName name ∧
      (isAggregation step.action = false → frameName name ∈ operands line) ∧
      (isAggregation step.action = true → operands line = [groupedFrame name table]) :=
    fun step hstep line hline => operands_of_mem_stepLines (hsteps step hstep) hline
  refine ⟨exists_tableBlock_of_ofScript hmodel htable, hlines, ?_, ?_⟩
  · rintro hall ⟨step, hstep, haggregation⟩
    obtain ⟨line, hline⟩ := exists_mem_stepLines haggregation (frameName name)
    have hread := hall step hstep line hline
    rw [(hlines step hstep line hline).2.2 haggregation] at hread
    exact (List.mem_singleton.mp hread).symm
  · intro hsame step hstep line hline
    obtain ⟨-, hown, hgrouped⟩ := hlines step hstep line hline
    cases haggregation : isAggregation step.action with
    | false => exact hown haggregation
    | true =>
        rw [hgrouped haggregation, hsame ⟨step, hstep, haggregation⟩]
        exact List.mem_singleton_self _

/-- A load that filters and groups the rows of a file. -/
def groupedScript : String :=
  "Sales: LOAD region, Sum(amount) as total FROM sales.csv WHERE amount > 0 GROUP BY region;"

/-- The load in that script. -/
def groupedLoad : Load :=
  ⟨.external, some "Sales", [⟨"region", none, false⟩, ⟨"Sum(amount)", some "total", true⟩],
    some "sales.csv", some "amount > 0", some ["region"], none, none, false, none⟩

theorem operands_of_groupedScript :
    ∃ model table, DataModel.ofScript groupedScript = .ok model ∧
      model.tables.get? "Sales" = some table ∧
      (∃ step ∈ table.steps, ∃ line ∈ stepLines (frameName "Sales") step.action,
        assigned line = "df_sales" ∧ operands line = ["df_sales_csv"]) ∧
      ¬ ∀ step ∈ table.steps, ∀ line ∈ stepLines (frameName "Sales") step.action,
        frameName "Sales" ∈ operands line := by
  have hread : readScript groupedScript = .ok [.load groupedLoad] := by decide +kernel
  have hsourced : ∀ load, Statement.load load ∈ [.load groupedLoad] → ¬ load.Unsourced := by
    intro load hload hunsourced
    obtain rfl : load = groupedLoad := by simpa using hload
    cases hunsourced.1
  obtain ⟨model, hmodel⟩ := DataModel.exists_ofScript hread hsourced
  obtain ⟨statements, hstatements, hbuilt⟩ := DataModel.ofScript_eq_ok hmodel
  obtain rfl : statements = [.load groupedLoad] := Except.ok.inj (hstatements.symm.trans hread)
  obtain ⟨taken, htaken, htables⟩ := DataModel.ofStatements_eq_ok hbuilt
  have hsplit : ([] ++ Statement.load groupedLoad :: []).foldlM Builder.add {} = .ok taken := htaken
  obtain ⟨before, next, hbefore, hadd, hnext⟩ := Builder.foldlM_add_append_cons_eq_ok hsplit
  cases hbefore
  cases hnext
  have hload : Builder.addLoad {} groupedLoad = .ok taken := hadd
  obtain ⟨table, hdefined, hput⟩ := Builder.addLoad_eq_ok hload
  have htable : model.tables.get? "Sales" = some table := by
    rw [htables]
    show taken.model.tables.get? "Sales" = some table
    rw [hput]
    exact Catalog.get?_put_self _ _ _
  -- The load gives a filter and after it an aggregation.
  have hsteps : table.steps = Builder.laterSteps {} "Sales" groupedLoad table.columns ∧
      table.sourcePath = some "sales.csv" := by
    cases hdefined
    exact ⟨rfl, rfl⟩
  obtain ⟨step, hstep, haggregation⟩ :
      ∃ step ∈ table.steps, isAggregation step.action = true := by
    rw [hsteps.1]
    exact ⟨_, List.mem_cons_of_mem _ List.mem_cons_self, rfl⟩
  obtain ⟨-, hlines, hchain⟩ := operands_of_script hmodel htable
  obtain ⟨line, hline⟩ := exists_mem_stepLines haggregation (frameName "Sales")
  obtain ⟨htarget, -, hgrouped⟩ := hlines step hstep line hline
  have hframes : frameName "Sales" = "df_sales" ∧ groupedFrame "Sales" table = "df_sales_csv" := by
    rw [groupedFrame, hsteps.2]
    decide
  refine ⟨model, table, hmodel, htable, ⟨step, hstep, line, hline, ?_, ?_⟩, fun hall => ?_⟩
  · rw [htarget, hframes.1]
  · rw [hgrouped haggregation, hframes.2]
  · have hsame := hchain.mp hall ⟨step, hstep, haggregation⟩
    rw [hframes.1, hframes.2] at hsame
    exact absurd hsame (by decide)

end QlikMigration.Spark
