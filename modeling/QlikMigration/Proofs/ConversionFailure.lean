import QlikMigration.Conversion
import QlikMigration.Proofs.Building
import QlikMigration.Proofs.ReadFailure

/-!
# When a conversion fails

A conversion reads a script, builds its model and writes a program. Reading fails
at a join without a table, building at a resident load without a source. After
that nothing can fail: a model that was built has no resident table without a
source, and every call in an expression has at least one argument, so each rule
for a function finds the argument that it needs.
-/

namespace QlikMigration

open QlikMigration.Script

/-! ## Building -/

/-- A load of another table that does not say which one. -/
def Script.Load.Unsourced (load : Load) : Prop :=
  load.kind = .resident ∧ load.source = none

/-- A resident table says where its rows come from. -/
def Table.Sourced (table : Table) : Prop :=
  table.sourceType = LoadKind.resident.word → table.sourcePath ≠ none

theorem Table.sourced_of_kind {table : Table} (kind : LoadKind)
    (htype : table.sourceType = kind.word) (hkind : kind ≠ .resident) : table.Sourced := by
  intro hresident
  have hwords := congrArg LoadKind.ofWord? (htype.symm.trans hresident)
  rw [LoadKind.ofWord?_word, LoadKind.ofWord?_word, Option.some.injEq] at hwords
  exact absurd hwords hkind

namespace Builder

section Table

variable {builder : Builder} {name : String} {load : Load} {table : Table}

/-- The rows of a load cannot be found exactly if it is resident without a source. -/
theorem originTable_eq_error_iff :
    builder.originTable name load = .error .residentWithoutSource ↔ load.Unsourced := by
  unfold originTable Load.Unsourced
  cases hkind : load.kind with
  | external => simp
  | resident => cases hsource : load.source <;> simp
  | inlined => simp
  | mapping => simp

/-- A table that is built is not resident without a source. -/
theorem sourced_of_originTable (h : builder.originTable name load = .ok table) :
    table.Sourced := by
  unfold originTable at h
  cases hkind : load.kind with
  | external =>
      simp only [hkind, Except.ok.injEq] at h
      subst h
      exact Table.sourced_of_kind .external rfl (by decide)
  | resident =>
      cases hsource : load.source with
      | none => simp [hkind, hsource] at h
      | some source =>
          simp only [hkind, hsource, Except.ok.injEq] at h
          subst h
          exact fun _ => Option.some_ne_none source
  | inlined =>
      simp only [hkind, Except.ok.injEq] at h
      subst h
      exact Table.sourced_of_kind .inlined rfl (by decide)
  | mapping =>
      simp only [hkind, Except.ok.injEq] at h
      subst h
      exact Table.sourced_of_kind .mapping rfl (by decide)

/-- Joins, filters and groupings add nothing that can fail. -/
theorem tableOf_eq_error_iff :
    builder.tableOf name load = .error .residentWithoutSource ↔ load.Unsourced := by
  rw [tableOf, ← originTable_eq_error_iff]
  cases builder.originTable name load <;> simp [Except.map]

/-- Joins, filters and groupings do not change where the rows of a table come from. -/
theorem sourced_of_tableOf (h : builder.tableOf name load = .ok table) : table.Sourced := by
  unfold tableOf at h
  cases horigin : builder.originTable name load with
  | error cause =>
      rw [horigin] at h
      cases h
  | ok origin =>
      have hsourced : origin.Sourced := sourced_of_originTable horigin
      rw [horigin] at h
      cases h
      exact hsourced

end Table

/-- A statement stops a builder exactly if it is a resident load without a source. -/
theorem exists_add_eq_error_iff (builder : Builder) (statement : Statement) :
    (∃ stopped, builder.add statement = .error stopped) ↔
      ∃ load, statement = .load load ∧ load.Unsourced := by
  cases statement with
  | assign assignment => simp [add]
  | mapping load => simp [add]
  | load load =>
      simp only [add, addLoad, Statement.load.injEq, exists_eq_left']
      rw [← tableOf_eq_error_iff]
      cases (builder.nameFor load).2.tableOf (builder.nameFor load).1 load with
      | ok table => simp
      | error cause => simp

/-- Statements stop a builder exactly if one of them is a resident load without a source. -/
theorem exists_foldlM_eq_error_iff (builder : Builder) (statements : List Statement) :
    (∃ stopped, statements.foldlM add builder = .error stopped) ↔
      ∃ load, Statement.load load ∈ statements ∧ load.Unsourced := by
  induction statements generalizing builder with
  | nil => simp [pure, Except.pure]
  | cons statement statements ih =>
      rw [List.foldlM_cons]
      cases hadd : builder.add statement with
      | error stopped =>
          obtain ⟨load, rfl, hload⟩ :=
            (exists_add_eq_error_iff builder statement).mp ⟨stopped, hadd⟩
          exact iff_of_true ⟨stopped, rfl⟩ ⟨load, List.mem_cons_self, hload⟩
      | ok next =>
          have hsourced : ¬ ∃ load, statement = .load load ∧ load.Unsourced := by
            rw [← exists_add_eq_error_iff builder, hadd]
            simp
          constructor
          · intro h
            obtain ⟨load, hmem, hload⟩ := (ih next).mp h
            exact ⟨load, List.mem_cons_of_mem statement hmem, hload⟩
          · rintro ⟨load, hmem, hload⟩
            rcases List.mem_cons.mp hmem with heq | hrest
            · exact absurd ⟨load, heq.symm, hload⟩ hsourced
            · exact (ih next).mpr ⟨load, hrest, hload⟩

/-- No table of a builder is resident without a source, if none was at the start. -/
theorem sourced_of_foldlM {builder after : Builder} {statements : List Statement}
    (hstart : ∀ name table, builder.model.tables.get? name = some table → table.Sourced)
    (h : statements.foldlM add builder = .ok after) :
    ∀ name table, after.model.tables.get? name = some table → table.Sourced := by
  intro name table hget
  rcases get?_of_foldlM h hget with hold | ⟨before, load, -, htable⟩
  · exact hstart name table hold
  · exact sourced_of_tableOf htable

end Builder

/-- A model cannot be built exactly if a resident load has no source. -/
theorem DataModel.ofStatements_eq_error_iff {statements : List Statement} :
    DataModel.ofStatements statements = .error .residentWithoutSource ↔
      ∃ load, Statement.load load ∈ statements ∧ load.Unsourced := by
  rw [← Builder.exists_foldlM_eq_error_iff {}, DataModel.ofStatements, Builder.run]
  cases statements.foldlM Builder.add {} with
  | ok builder => simp [Except.map]
  | error stopped => simp [Except.map]

/-- A model that is built comes from a builder that has taken in all statements. -/
theorem DataModel.ofStatements_eq_ok {statements : List Statement} {model : DataModel}
    (h : DataModel.ofStatements statements = .ok model) :
    ∃ taken : Builder, statements.foldlM Builder.add {} = .ok taken ∧
      model = taken.finish.model := by
  unfold DataModel.ofStatements at h
  split at h
  · next builder hrun =>
    cases h
    obtain ⟨taken, htaken, rfl⟩ := Builder.run_eq_ok hrun
    exact ⟨taken, htaken, rfl⟩
  · cases h

theorem DataModel.ofStatements_of_foldlM {statements : List Statement} {taken : Builder}
    (h : statements.foldlM Builder.add {} = .ok taken) :
    DataModel.ofStatements statements = .ok taken.finish.model := by
  rw [DataModel.ofStatements, Builder.run, h]
  rfl

/-- No table of a model is resident without a source. -/
theorem DataModel.sourced_of_ofStatements {statements : List Statement} {model : DataModel}
    (h : DataModel.ofStatements statements = .ok model) :
    ∀ name table, model.tables.get? name = some table → table.Sourced := by
  obtain ⟨taken, htaken, rfl⟩ := DataModel.ofStatements_eq_ok h
  have hempty : ∀ name table, ({} : Builder).model.tables.get? name = some table →
      table.Sourced := fun _ _ hget => nomatch hget
  exact fun name table hget => Builder.sourced_of_foldlM hempty htaken name table hget

/-! ## Writing the program -/

namespace Spark

/-- A call in an expression has an argument for every rule that needs one. -/
theorem functionCall?_of_convertCall (name argText : List Char) :
    functionCall? (String.ofList name)
        ((List.splitOn ',' argText).map fun arg => String.ofList (Text.trim arg)) =
      some (String.ofList (convertCall name argText)) := by
  rw [convertCall]
  cases hparts : List.splitOn ',' argText with
  | nil => exact absurd hparts (List.splitOnP_ne_nil _ _)
  | cons first rest => simp [functionCall?]

/-- The block of a table that is not resident without a source can be written. -/
theorem exists_tableBlock {table : Table} (h : table.Sourced) :
    ∃ lines, tableBlock table = .ok lines := by
  have hsource : ∀ frame, ∃ lines, sourceLines table frame = .ok lines := by
    intro frame
    unfold sourceLines
    by_cases hexternal : (table.sourceType == "external") = true
    · exact ⟨_, if_pos hexternal⟩
    · rw [if_neg hexternal]
      by_cases hresident : (table.sourceType == "resident") = true
      · obtain ⟨source, hpath⟩ := Option.ne_none_iff_exists'.mp (h (beq_iff_eq.mp hresident))
        rw [if_pos hresident, residentLine, hpath]
        exact ⟨_, rfl⟩
      · rw [if_neg hresident]
        split <;> exact ⟨_, rfl⟩
  obtain ⟨lines, hlines⟩ := hsource (frameName table.name)
  simp only [tableBlock, hlines]
  exact ⟨_, rfl⟩

/-- A block is a comment, what sets up the frame of its table, and the lines of the steps. -/
theorem tableBlock_eq_ok {table : Table} {block : List String} (h : tableBlock table = .ok block) :
    ∃ source, sourceLines table (frameName table.name) = .ok source ∧
      block = ("# Table: " ++ table.name) :: source ++
        table.steps.flatMap fun step => stepLines (frameName table.name) step.action := by
  rw [tableBlock] at h
  cases hsource : sourceLines table (frameName table.name) with
  | error cause =>
      rw [hsource] at h
      cases h
  | ok source =>
      rw [hsource] at h
      cases h
      exact ⟨source, rfl, rfl⟩

theorem exists_mapM_eq_ok {α β ε : Type} {f : α → Except ε β} {xs : List α}
    (h : ∀ x ∈ xs, ∃ y, f x = .ok y) : ∃ ys, xs.mapM f = .ok ys := by
  induction xs with
  | nil => exact ⟨[], rfl⟩
  | cons x xs ih =>
      obtain ⟨y, hy⟩ := h x List.mem_cons_self
      obtain ⟨ys, hys⟩ := ih fun other hother => h other (List.mem_cons_of_mem x hother)
      refine ⟨y :: ys, ?_⟩
      rw [List.mapM_cons, hy, hys]
      rfl

/-- The program of a model without resident tables that lack a source can be written. -/
theorem exists_program {model : DataModel}
    (h : ∀ name table, model.tables.get? name = some table → table.Sourced) (session : Session) :
    ∃ text, program session model = .ok text := by
  have hblocks : ∃ blocks, tableBlocks model = .ok blocks := by
    apply exists_mapM_eq_ok
    intro table htable
    obtain ⟨name, -, hget⟩ := List.mem_filterMap.mp htable
    obtain ⟨lines, hlines⟩ := exists_tableBlock (h name table hget)
    rw [hlines]
    exact ⟨_, rfl⟩
  obtain ⟨blocks, hblocks⟩ := hblocks
  rw [program, programLines, hblocks]
  exact ⟨_, rfl⟩

end Spark

/-! ## The whole conversion -/

/-- A script that is read contains a resident load without a source. -/
def HasUnsourcedLoad (script : String) : Prop :=
  ∃ statements, readScript script = .ok statements ∧
    ∃ load, Statement.load load ∈ statements ∧ load.Unsourced

/-- The model of a script cannot be built exactly if a resident load has no source. -/
theorem DataModel.ofScript_eq_build_error_iff (script : String) :
    DataModel.ofScript script = .error (.build .residentWithoutSource) ↔
      HasUnsourcedLoad script := by
  rw [DataModel.ofScript, HasUnsourcedLoad]
  cases readScript script with
  | error cause => simp
  | ok statements =>
      simp only [Except.ok.injEq, exists_eq_left', ← DataModel.ofStatements_eq_error_iff]
      cases DataModel.ofStatements statements <;> simp [Except.mapError]

/-- The model of a script cannot be read exactly if the script cannot. -/
theorem DataModel.ofScript_eq_read_error_iff {script : String} {cause : ReadError} :
    DataModel.ofScript script = .error (.read cause) ↔ readScript script = .error cause := by
  rw [DataModel.ofScript]
  cases readScript script with
  | error found => simp
  | ok statements =>
      dsimp only
      cases DataModel.ofStatements statements <;> simp [Except.mapError]

/-- The model of a script is that of its statements. -/
theorem DataModel.ofScript_eq_ok {script : String} {model : DataModel}
    (h : DataModel.ofScript script = .ok model) :
    ∃ statements, readScript script = .ok statements ∧
      DataModel.ofStatements statements = .ok model := by
  unfold DataModel.ofScript at h
  split at h
  · cases h
  · next statements hread =>
    cases hmodel : DataModel.ofStatements statements with
    | error cause =>
        rw [hmodel] at h
        cases h
    | ok built =>
        rw [hmodel] at h
        cases h
        exact ⟨statements, hread, hmodel⟩

/-- A table of a script's model is what a load on one of the script's lines defines. -/
theorem DataModel.exists_line_of_get? {script : String} {model : DataModel} {name : String}
    {table : Table} (hmodel : DataModel.ofScript script = .ok model)
    (htable : model.tables.get? name = some table) :
    ∃ before load, ∃ line ∈ statementLines script.toList,
      readLine line = .ok (some (.load load)) ∧ (Builder.nameFor before load).1 = name ∧
        (Builder.nameFor before load).2.tableOf name load = .ok table := by
  obtain ⟨statements, hread, hbuilt⟩ := DataModel.ofScript_eq_ok hmodel
  obtain ⟨taken, htaken, rfl⟩ := DataModel.ofStatements_eq_ok hbuilt
  rcases Builder.exists_nameFor_of_get? htaken htable with hempty | ⟨before, load, hload, hdefined⟩
  · cases hempty
  · obtain ⟨line, hmem, hline⟩ := exists_line_of_mem hread hload
    exact ⟨before, load, line, hmem, hline, hdefined⟩

theorem DataModel.ofScript_of_readScript {script : String} {statements : List Statement}
    {model : DataModel} (hread : readScript script = .ok statements)
    (hmodel : DataModel.ofStatements statements = .ok model) :
    DataModel.ofScript script = .ok model := by
  rw [DataModel.ofScript, hread]
  dsimp only
  rw [hmodel]
  rfl

/-- A script that is read has a model, if every resident load has a source. -/
theorem DataModel.exists_ofScript {script : String} {statements : List Statement}
    (hread : readScript script = .ok statements)
    (hsourced : ∀ load, Statement.load load ∈ statements → ¬ load.Unsourced) :
    ∃ model, DataModel.ofScript script = .ok model := by
  have hnone : DataModel.ofStatements statements ≠ .error .residentWithoutSource := by
    rw [Ne, DataModel.ofStatements_eq_error_iff]
    rintro ⟨load, hload, hunsourced⟩
    exact hsourced load hload hunsourced
  cases hmodel : DataModel.ofStatements statements with
  | ok model => exact ⟨model, DataModel.ofScript_of_readScript hread hmodel⟩
  | error cause => exact absurd hmodel (by cases cause; exact hnone)

/-- The program of a model that was built from a script can be written. -/
theorem Spark.exists_program_of_ofScript {script : String} {model : DataModel}
    (h : DataModel.ofScript script = .ok model) (session : Spark.Session) :
    ∃ text, Spark.program session model = .ok text := by
  obtain ⟨statements, -, hmodel⟩ := DataModel.ofScript_eq_ok h
  exact Spark.exists_program (DataModel.sourced_of_ofStatements hmodel) session

/-- Only reading and building keep a script from having a model. -/
theorem DataModel.eq_of_ofScript_eq_error {script : String} {error : ConversionError}
    (h : DataModel.ofScript script = .error error) :
    (∃ cause, error = .read cause) ∨ error = .build .residentWithoutSource := by
  unfold DataModel.ofScript at h
  split at h
  · next cause _ =>
    cases h
    exact Or.inl ⟨cause, rfl⟩
  · next statements _ =>
    cases hmodel : DataModel.ofStatements statements with
    | error cause =>
        rw [hmodel] at h
        cases h
        cases cause
        exact Or.inr rfl
    | ok built =>
        rw [hmodel] at h
        cases h

/-- A conversion with options fails where its script has no model, and nowhere else. -/
theorem convert_of_session {request : ConversionRequest} {session : Spark.Session}
    (h : request.session = some session) :
    (∀ error, convert request = .error error ↔
      DataModel.ofScript request.script = .error error) ∧
    ((∃ conversion, convert request = .ok conversion) ↔
      ∃ model, DataModel.ofScript request.script = .ok model) := by
  cases hmodel : DataModel.ofScript request.script with
  | error cause =>
      have hconvert : convert request = .error cause := by
        rw [convert, hmodel]
        rfl
      simp [hconvert]
  | ok model =>
      obtain ⟨text, htext⟩ := Spark.exists_program_of_ofScript hmodel session
      have hconvert : convert request = .ok ⟨text, Semantic.model model, model.plan⟩ := by
        rw [convert, hmodel, h]
        show ((Spark.program session model).mapError ConversionError.program).bind _ = _
        rw [htext]
        rfl
      simp [hconvert]

/-- A conversion with options gives a result unless a join without a table is reached or a
resident load has no source, and these two fail each in its own way. A resident load has
no source where no name follows `RESIDENT`. Once there is a model, its program can be
written, and every call in it is converted by a rule that has its arguments. -/
theorem convert_fails_iff {request : ConversionRequest} {session : Spark.Session}
    (hsession : request.session = some session) (hdotted : dottedI ∉ request.script.toList) :
    (convert request = .error (.read .joinWithoutTable) ↔ ReachesBareJoin request.script) ∧
      (convert request = .error (.build .residentWithoutSource) ↔
        HasUnsourcedLoad request.script) ∧
      ((∃ conversion, convert request = .ok conversion) ↔
        ¬ ReachesBareJoin request.script ∧ ¬ HasUnsourcedLoad request.script) ∧
      (∀ line load, readLine line = .ok (some (.load load)) →
        (load.Unsourced ↔ UnnamedResident line)) ∧
      (∀ model, DataModel.ofScript request.script = .ok model →
        ∀ any, ∃ text, Spark.program any model = .ok text) ∧
      ∀ name argText, Spark.functionCall? (String.ofList name)
          ((List.splitOn ',' argText).map fun arg => String.ofList (Text.trim arg)) =
        some (String.ofList (Spark.convertCall name argText)) := by
  obtain ⟨herror, hok⟩ := convert_of_session hsession
  have hread : ∀ cause, DataModel.ofScript request.script = .error (.read cause) ↔
      cause = .joinWithoutTable ∧ ReachesBareJoin request.script := fun cause =>
    DataModel.ofScript_eq_read_error_iff.trans (readScript_eq_error_iff hdotted)
  have hbuild := DataModel.ofScript_eq_build_error_iff request.script
  refine ⟨?_, (herror _).trans hbuild, ?_, ?_, ?_, Spark.functionCall?_of_convertCall⟩
  · rw [herror, hread]
    exact and_iff_right rfl
  · rw [hok]
    constructor
    · rintro ⟨model, hmodel⟩
      rw [← hbuild, hmodel]
      refine ⟨fun hreaches => ?_, by simp⟩
      have hfails := (hread .joinWithoutTable).mpr ⟨rfl, hreaches⟩
      rw [hmodel] at hfails
      cases hfails
    · rintro ⟨hreaches, hunsourced⟩
      cases hmodel : DataModel.ofScript request.script with
      | ok model => exact ⟨model, rfl⟩
      | error error =>
          rcases DataModel.eq_of_ofScript_eq_error hmodel with ⟨cause, rfl⟩ | rfl
          · exact absurd ((hread cause).mp hmodel).2 hreaches
          · exact absurd (hbuild.mp hmodel) hunsourced
  · intro line load hline
    obtain ⟨hkind, hsource⟩ := origin_of_readLine hline
    rw [Load.Unsourced, hkind, hsource]
    exact readOrigin_resident_iff
  · exact fun model hmodel any => Spark.exists_program_of_ofScript hmodel any

/-- A script with two joins without a table, of which only the second is reached: the line
before the first gives nothing, so the first is passed over. -/
def bareJoinScript : String :=
  "TRACE x;\nJOIN LOAD a;\nLET b = 1;\nright join\n  load c RESIDENT d;"

theorem convert_fails_on_bareJoinScript :
    dottedI ∉ bareJoinScript.toList ∧
      convert ⟨bareJoinScript, some .created⟩ = .error (.read .joinWithoutTable) ∧
      ReachesBareJoin bareJoinScript := by
  have hplain : dottedI ∉ bareJoinScript.toList := by decide +kernel
  have hread : readScript bareJoinScript = .error .joinWithoutTable := by decide +kernel
  have hfails : convert ⟨bareJoinScript, some .created⟩ = .error (.read .joinWithoutTable) := by
    rw [convert, DataModel.ofScript, hread]
    rfl
  exact ⟨hplain, hfails, (convert_fails_iff rfl hplain).1.mp hfails⟩

end QlikMigration
