import QlikMigration.Proofs.Batches
import QlikMigration.Proofs.JoinResult
import QlikMigration.Proofs.SelectedFields

/-!
# Where the tables of a model come from

A load defines one table. If it reads another table, a star among its fields
stands for the columns which that table has at the moment, and it replaces what
was selected before: only the fields after the last star are added to them. The
columns of the new table itself are those of the fields that are no stars.

The table is put under the label of the load, or else under a name made from the
number of loads without a label so far. Nobody looks whether the name is taken.
So the tables of a model are, under each name that was given, the table of the
last load of that name, in the order in which the names were first given; and
each load has a table of its own exactly if the names are distinct.
-/

namespace QlikMigration

open QlikMigration.Script

/-! ## The columns of a resident load -/

/-- A step that selects columns and keeps repeated rows. -/
def Step.isSelection (step : Step) : Bool :=
  match step.action with
  | .select _ _ _ distinct => !distinct
  | _ => false

/-- The last star brings in the columns of a known source, and the fields after it add theirs. -/
theorem selectedColumns_of_lastStar (source : Table) {front back : List Field} {star : Field}
    (hstar : star.isStar = true) (hback : ∀ field ∈ back, field.isStar = false) :
    selectedColumns (some source) (front ++ star :: back) =
      source.columns ++ back.map Field.column := by
  have hsource : selectedColumns (some source) (front ++ [star]) = source.columns := by
    simp [selectedColumns, hstar]
  have hplain : fieldColumns back = back.map Field.column := by
    rw [fieldColumns, List.filter_eq_self.mpr fun field hfield => by rw [hback field hfield]; rfl]
  rw [List.append_cons, selectedColumns_append_of_keeps (Or.inr hback), hsource, hplain]

/-- What a load from another table leaves behind, where `selected` are the columns of its
selection. -/
structure ResidentRun (builder after : Builder) (name source : String) (fields : List Field)
    (table : Table) (selected : List Column) : Prop where
  defined : after.model.tables.get? name = some table
  recorded : table.steps.filter Step.isSelection =
    [⟨.select name source selected false, [source]⟩]
  /-- Without a star, or without a known source, the other fields are selected. -/
  plain : (∀ field ∈ fields, field.isStar = false) ∨ builder.model.tables.get? source = none →
    selected = (fields.filter fun field => !field.isStar).map Field.column
  /-- The last star brings in the columns of a known source, and drops the fields before it. -/
  starred : ∀ known front star back, builder.model.tables.get? source = some known →
    fields = front ++ star :: back → star.isStar = true →
    (∀ field ∈ back, field.isStar = false) →
      selected = known.columns ++ back.map Field.column
  columns : table.columns = (fields.filter fun field => !field.isStar).map Field.column
  others : ∀ other, other ≠ name →
    after.model.tables.get? other = builder.model.tables.get? other

/-- The steps of a load after its origin select no columns, except to drop repeated rows. -/
theorem filter_isSelection_laterSteps (builder : Builder) (name : String) (load : Load)
    (columns : List Column) :
    (builder.laterSteps name load columns).filter Step.isSelection = [] := by
  rw [Builder.laterSteps]
  cases load.join <;> cases load.condition <;> cases load.grouping <;> cases load.distinct <;> rfl

/-- A load from another table is taken in by every builder. Its selection has the columns of the
fields that are no stars; if there is a star and the table is known, it has the columns of that
table and of the fields after the last star. The new table has the columns of all fields that are
no stars, and no other table changes. -/
theorem exists_residentRun_of_addLoad (builder : Builder) {load : Load} {source : String}
    (hkind : load.kind = .resident) (hsource : load.source = some source) :
    ∃ after table selected, builder.addLoad load = .ok after ∧
      ResidentRun builder after (builder.nameFor load).1 source load.fields table selected := by
  obtain ⟨after, hafter⟩ : ∃ after, builder.addLoad load = .ok after := by
    cases hadd : builder.addLoad load with
    | ok after => exact ⟨after, rfl⟩
    | error stopped =>
        obtain ⟨refused, hrefused, -, hnone⟩ :=
          (builder.exists_add_eq_error_iff (.load load)).mp ⟨stopped, hadd⟩
        rw [← Statement.load.inj hrefused, hsource] at hnone
        cases hnone
  obtain ⟨table, htable, hmodel⟩ := Builder.addLoad_eq_ok hafter
  obtain ⟨hcolumns, hsteps⟩ := Spark.steps_of_resident htable hkind hsource
  rw [Builder.model_nameFor] at hsteps
  refine ⟨after, table, selectedColumns (builder.model.tables.get? source) load.fields, hafter,
    ?_, ?_, ?_, ?_, hcolumns, ?_⟩
  · rw [hmodel]
    exact Catalog.get?_put_self _ _ _
  · rw [hsteps, List.filter_cons_of_pos rfl, filter_isSelection_laterSteps]
  · intro hplain
    exact selectedColumns_append_of_keeps hplain.symm []
  · intro known front star back hknown hcut hstar hback
    rw [hknown, hcut, selectedColumns_of_lastStar known hstar hback]
  · intro other hother
    rw [hmodel]
    exact Catalog.get?_put_of_ne _ _ hother

/-- A builder with one table of two columns. -/
def stockBuilder : Builder :=
  { model.tables := .ofList
      [("Stock", { name := "Stock", columns := [{ name := "a" }, { name := "b" }] })] }

/-- A load with fields before, between and after two stars. -/
def starredLoad : Load :=
  { kind := .resident, label := some "Copy"
    fields := [⟨"x", none, false⟩, ⟨"*", none, false⟩, ⟨"y", some "z", false⟩, ⟨"*", none, false⟩,
      ⟨"w", none, false⟩]
    source := some "Stock", condition := none, grouping := none, ordering := none, join := none
    distinct := true, rows := none }

/-- The two fields before the last star are columns of the new table, and they are not selected. -/
theorem exists_residentRun_of_starredLoad :
    ∃ after table selected, stockBuilder.addLoad starredLoad = .ok after ∧
      ResidentRun stockBuilder after "Copy" "Stock" starredLoad.fields table selected ∧
      selected.map Column.name = ["a", "b", "w"] ∧ table.columnNames = ["x", "z", "w"] ∧
      after.model.tables.get? "Stock" = stockBuilder.model.tables.get? "Stock" := by
  obtain ⟨after, table, selected, hafter, hrun⟩ :=
    exists_residentRun_of_addLoad stockBuilder (rfl : starredLoad.kind = .resident) rfl
  have hselected := hrun.starred _ [⟨"x", none, false⟩, ⟨"*", none, false⟩, ⟨"y", some "z", false⟩]
    ⟨"*", none, false⟩ [⟨"w", none, false⟩] rfl rfl (by decide) (by simp [Field.isStar])
  refine ⟨after, table, selected, hafter, hrun, ?_, ?_, hrun.others "Stock" (by decide)⟩
  · rw [hselected]
    decide +kernel
  · rw [Table.columnNames, hrun.columns]
    decide +kernel

/-! ## The names of loads -/

namespace Script

/-- A statement as a load, if it is one. -/
def Statement.load? : Statement → Option Load
  | .load loading => some loading
  | _ => none

/-- The loads among statements. -/
def loads (statements : List Statement) : List Load :=
  statements.filterMap Statement.load?

/-- Whether a load has no label; an empty one does not count. -/
def Load.isUnlabelled (load : Load) : Bool :=
  (present? load.label).isNone

/-- The name of a load after earlier ones: its label, or else a name with its number among the
loads without a label. -/
def loadName (earlier : List Load) (load : Load) : String :=
  (present? load.label).getD ("Table" ++ toString (earlier.countP Load.isUnlabelled + 1))

/-- The names of loads in turn. -/
def loadNames (loads : List Load) : List String :=
  loads.mapIdx fun i load => loadName (loads.take i) load

theorem loads_append_singleton (statements : List Statement) (statement : Statement) :
    loads (statements ++ [statement]) = loads statements ++ statement.load?.toList := by
  rw [loads, List.filterMap_append]
  cases statement <;> rfl

theorem loadNames_append_singleton (earlier : List Load) (load : Load) :
    loadNames (earlier ++ [load]) = loadNames earlier ++ [loadName earlier load] := by
  rw [loadNames, List.mapIdx_concat, List.take_left]
  congr 1
  rw [loadNames, List.mapIdx_eq_mapIdx_iff]
  intro i hi
  rw [List.take_append_of_le_length hi.le]

/-- Two loads without a label have different names. -/
theorem loadNames_ne_of_isUnlabelled {loads : List Load} {i j : Nat} {first second : Load}
    (hlt : i < j) (hfirst : loads[i]? = some first) (hsecond : loads[j]? = some second)
    (hfirstLabel : first.isUnlabelled = true) (hsecondLabel : second.isUnlabelled = true) :
    (loadNames loads)[i]? ≠ (loadNames loads)[j]? := by
  have hname : ∀ (k : Nat) (load : Load), loads[k]? = some load → load.isUnlabelled = true →
      (loadNames loads)[k]? =
        some (Builder.nextName { generated := (loads.take k).countP Load.isUnlabelled }) := by
    intro k load hload hlabel
    rw [loadNames, List.getElem?_mapIdx, hload, Option.map_some, loadName,
      Option.isNone_iff_eq_none.mp hlabel]
    rfl
  have hstep : (loads.take (i + 1)).countP Load.isUnlabelled =
      (loads.take i).countP Load.isUnlabelled + 1 := by
    rw [List.take_add_one, hfirst, List.countP_append]
    simp [hfirstLabel]
  have hmono : (loads.take (i + 1)).countP Load.isUnlabelled ≤
      (loads.take j).countP Load.isUnlabelled :=
    (List.take_sublist_take_left hlt).countP_le
  rw [hname i first hfirst hfirstLabel, hname j second hsecond hsecondLabel]
  intro heq
  have hcount := Builder.nextName_inj (Option.some.inj heq)
  dsimp only at hcount
  omega

end Script

/-! ## The last load of a name -/

/-- The entry of the load at a position among the loads of statements: its name, and the table
under the name once a fresh builder has taken in the statements up to the load. -/
def BuiltAt (statements : List Statement) (i : Nat) (entry : String × Table) : Prop :=
  ∃ front load back before after, statements = front ++ .load load :: back ∧
    (loads front).length = i ∧ front.foldlM Builder.add {} = .ok before ∧
    before.addLoad load = .ok after ∧ entry.1 = loadName (loads front) load ∧
    after.model.tables.get? entry.1 = some entry.2

/-- What a load among statements builds does not depend on the statements after it. -/
theorem builtAt_append_singleton_iff {statements : List Statement} {statement : Statement}
    {i : Nat} {entry : String × Table} :
    BuiltAt (statements ++ [statement]) i entry ↔
      BuiltAt statements i entry ∨
        ∃ load before after, statement = .load load ∧ (loads statements).length = i ∧
          statements.foldlM Builder.add {} = .ok before ∧ before.addLoad load = .ok after ∧
          entry.1 = loadName (loads statements) load ∧
          after.model.tables.get? entry.1 = some entry.2 := by
  constructor
  · rintro ⟨front, load, back, before, after, hcut, hbuilt⟩
    rcases List.eq_nil_or_concat back with rfl | ⟨back, last, rfl⟩
    · obtain ⟨rfl, hlast⟩ := List.append_inj' hcut rfl
      exact Or.inr ⟨load, before, after, List.singleton_inj.mp hlast, hbuilt⟩
    · rw [List.concat_eq_append, ← List.cons_append, ← List.append_assoc] at hcut
      obtain ⟨rfl, -⟩ := List.append_inj' hcut rfl
      exact Or.inl ⟨front, load, back, before, after, rfl, hbuilt⟩
  · rintro (⟨front, load, back, before, after, rfl, hbuilt⟩ | ⟨load, before, after, rfl, hbuilt⟩)
    · exact ⟨front, load, back ++ [statement], before, after, by simp, hbuilt⟩
    · exact ⟨statements, load, [], before, after, rfl, hbuilt⟩

/-- Under a name the catalog of a list has the entry at the last position of that name. -/
theorem Catalog.get?_ofList_eq_some_iff_getElem? {entries : List (String × Table)} {name : String}
    {table : Table} :
    (Catalog.ofList entries).get? name = some table ↔
      ∃ i : Nat, entries[i]? = some (name, table) ∧
        ∀ j, i < j → (entries.map Prod.fst)[j]? ≠ some name := by
  rw [Catalog.get?_ofList_eq_some_iff]
  constructor
  · rintro ⟨front, back, rfl, hback⟩
    refine ⟨front.length, by simp, fun j hlt hname => ?_⟩
    rw [List.getElem?_map, List.getElem?_append_right hlt.le, Option.map_eq_some_iff] at hname
    obtain ⟨later, hlater, rfl⟩ := hname
    obtain ⟨k, rfl⟩ : ∃ k, j = front.length + (k + 1) := ⟨j - front.length - 1, by omega⟩
    rw [Nat.add_sub_cancel_left, List.getElem?_cons_succ] at hlater
    exact hback later (List.mem_of_getElem? hlater) rfl
  · rintro ⟨i, hentry, hlast⟩
    obtain ⟨hlt, hget⟩ := List.getElem?_eq_some_iff.mp hentry
    refine ⟨entries.take i, entries.drop (i + 1), ?_, fun later hlater hname => ?_⟩
    · rw [← hget, ← List.drop_eq_getElem_cons hlt, List.take_append_drop]
    · obtain ⟨k, hk⟩ := List.mem_iff_getElem?.mp hlater
      rw [List.getElem?_drop] at hk
      exact hlast (i + 1 + k) (by omega) (by rw [List.getElem?_map, hk, ← hname]; rfl)

theorem getElem?_append_singleton_eq_some_iff {entries : List (String × Table)}
    {last entry : String × Table} {i : Nat} :
    (entries ++ [last])[i]? = some entry ↔
      entries[i]? = some entry ∨ entries.length = i ∧ last = entry := by
  rcases Nat.lt_trichotomy i entries.length with hlt | rfl | hgt
  · rw [List.getElem?_append_left hlt, or_iff_left fun h => Nat.ne_of_gt hlt h.1]
  · simp
  · rw [List.getElem?_eq_none (by simp; omega), List.getElem?_eq_none hgt.le]
    simp [Nat.ne_of_lt hgt]

/-- How a fresh builder comes to its tables: each load puts in its entry. -/
structure Builds (statements : List Statement) (after : Builder)
    (entries : List (String × Table)) : Prop where
  generated : after.generated = (loads statements).countP Load.isUnlabelled
  names : entries.map Prod.fst = loadNames (loads statements)
  builtAt_iff : ∀ i entry, entries[i]? = some entry ↔ BuiltAt statements i entry
  tables : after.model.tables = Catalog.ofList entries

namespace Builds

variable {statements : List Statement} {before after : Builder} {entries : List (String × Table)}

theorem length_eq (h : Builds statements before entries) :
    entries.length = (loads statements).length := by
  have hlength := congrArg List.length h.names
  rwa [List.length_map, loadNames, List.length_mapIdx] at hlength

/-- The number of generated names is the one that the name of the next load is made from. -/
theorem nameFor_eq (h : Builds statements before entries) (load : Load) :
    (before.nameFor load).1 = loadName (loads statements) load ∧
      (before.nameFor load).2.generated =
        (loads (statements ++ [.load load])).countP Load.isUnlabelled := by
  rw [loads_append_singleton, List.countP_append, loadName, ← h.generated]
  unfold Builder.nameFor
  cases hlabel : present? load.label with
  | some label =>
      have hlabelled : load.isUnlabelled = false := by simp [Load.isUnlabelled, hlabel]
      simp [Statement.load?, hlabelled]
  | none =>
      have hunlabelled : load.isUnlabelled = true := by simp [Load.isUnlabelled, hlabel]
      simp [Statement.load?, hunlabelled]

/-- A load adds its entry to those of the loads before it. -/
theorem of_addLoad (h : Builds statements before entries)
    (hbefore : statements.foldlM Builder.add {} = .ok before) {load : Load}
    (hadd : before.addLoad load = .ok after) :
    ∃ entry, Builds (statements ++ [.load load]) after (entries ++ [entry]) := by
  obtain ⟨table, -, hmodel⟩ := Builder.addLoad_eq_ok hadd
  obtain ⟨hname, hgenerated⟩ := h.nameFor_eq load
  rw [hname] at hmodel
  have hget : after.model.tables.get? (loadName (loads statements) load) = some table := by
    rw [hmodel]
    exact Catalog.get?_put_self _ _ _
  refine ⟨(loadName (loads statements) load, table),
    (Builder.generated_of_addLoad hadd).trans hgenerated, ?_, fun i entry => ?_, ?_⟩
  · rw [List.map_append, h.names, loads_append_singleton]
    exact (loadNames_append_singleton _ _).symm
  · have hlast : (∃ other earlier later, Statement.load load = .load other ∧
        (loads statements).length = i ∧ statements.foldlM Builder.add {} = .ok earlier ∧
        earlier.addLoad other = .ok later ∧ entry.1 = loadName (loads statements) other ∧
        later.model.tables.get? entry.1 = some entry.2) ↔
          entries.length = i ∧ (loadName (loads statements) load, table) = entry := by
      rw [h.length_eq]
      constructor
      · rintro ⟨other, earlier, later, hother, hi, hearlier, hlater, hfirst, hsecond⟩
        cases hother
        obtain rfl : earlier = before := Except.ok.inj (hearlier.symm.trans hbefore)
        obtain rfl : later = after := Except.ok.inj (hlater.symm.trans hadd)
        rw [hfirst, hget] at hsecond
        exact ⟨hi, Prod.ext hfirst.symm (Option.some.inj hsecond)⟩
      · rintro ⟨hi, rfl⟩
        exact ⟨load, before, after, rfl, hi, hbefore, hadd, rfl, hget⟩
    rw [builtAt_append_singleton_iff, ← h.builtAt_iff, hlast,
      getElem?_append_singleton_eq_some_iff]
  · rw [hmodel, h.tables, Catalog.ofList_append_singleton]

/-- A statement that is no load adds nothing. -/
theorem of_add_of_load?_eq_none (h : Builds statements before entries) {statement : Statement}
    (hload : statement.load? = none) (hadd : before.add statement = .ok after) :
    Builds (statements ++ [statement]) after entries := by
  have hsame : after.generated = before.generated ∧ after.model.tables = before.model.tables := by
    cases statement with
    | load load => cases hload
    | mapping load =>
        cases hadd
        exact ⟨rfl, rfl⟩
    | assign assignment =>
        cases hadd
        exact ⟨rfl, rfl⟩
  have hloads : loads (statements ++ [statement]) = loads statements := by
    rw [loads_append_singleton, hload]
    exact List.append_nil _
  refine ⟨?_, ?_, fun i entry => ?_, hsame.2.trans h.tables⟩
  · rw [hsame.1, hloads, h.generated]
  · rw [hloads, h.names]
  · rw [h.builtAt_iff, builtAt_append_singleton_iff, or_iff_left]
    rintro ⟨load, -, -, rfl, -⟩
    cases hload

end Builds

/-- The tables of a fresh builder are built from the loads that it has taken in. -/
theorem exists_builds {statements : List Statement} {after : Builder}
    (h : statements.foldlM Builder.add {} = .ok after) :
    ∃ entries, Builds statements after entries := by
  induction statements using List.reverseRecOn generalizing after with
  | nil =>
      cases h
      refine ⟨[], rfl, rfl, fun i entry => ?_, rfl⟩
      refine iff_of_false (by simp) ?_
      rintro ⟨front, load, back, -, -, hcut, -⟩
      simp at hcut
  | append_singleton statements statement ih =>
      obtain ⟨before, next, hbefore, hadd, hlast⟩ := Builder.foldlM_add_append_cons_eq_ok h
      cases hlast
      obtain ⟨entries, hbuilds⟩ := ih hbefore
      cases statement with
      | load load =>
          obtain ⟨entry, hentry⟩ := hbuilds.of_addLoad hbefore hadd
          exact ⟨_, hentry⟩
      | mapping load => exact ⟨entries, hbuilds.of_add_of_load?_eq_none rfl hadd⟩
      | assign assignment => exact ⟨entries, hbuilds.of_add_of_load?_eq_none rfl hadd⟩

/-- Every load keeps a table of its own: each has a place among the tables that no other load
has, and the entry that it put in is still there. -/
def KeepsTables (statements : List Statement) (tables : Catalog Table) : Prop :=
  ∃ place : Nat → Nat,
    (∀ i j, i < (loads statements).length → j < (loads statements).length →
      place i = place j → i = j) ∧
    ∀ i entry, BuiltAt statements i entry → tables.entries[place i]? = some entry

/-- Where the tables of a model come from. -/
structure TableOrigins (statements : List Statement) (tables : Catalog Table) : Prop where
  /-- The tables have the names of the loads in the order of first use. -/
  names : tables.names = (loadNames (loads statements)).eraseDups
  /-- Under a name stands what the last load of that name has built. -/
  last : ∀ name table, tables.get? name = some table ↔
    ∃ i, BuiltAt statements i (name, table) ∧
      ∀ j, i < j → (loadNames (loads statements))[j]? ≠ some name
  /-- A name that is used twice is a label at least once. -/
  labelled : ∀ (i j : Nat) first second, i < j → (loads statements)[i]? = some first →
    (loads statements)[j]? = some second → first.isUnlabelled = true →
    second.isUnlabelled = true →
      (loadNames (loads statements))[i]? ≠ (loadNames (loads statements))[j]?
  keeps_iff : KeepsTables statements tables ↔ (loadNames (loads statements)).Nodup

/-- Each load keeps its table exactly if no name is used twice. -/
theorem Builds.keepsTables_iff {statements : List Statement} {after : Builder}
    {entries : List (String × Table)} (h : Builds statements after entries) :
    KeepsTables statements after.model.tables ↔ (loadNames (loads statements)).Nodup := by
  rw [← h.names, h.tables]
  constructor
  · rintro ⟨place, hplace, hkeeps⟩
    rw [List.nodup_iff_getElem?_ne_getElem?]
    intro i j hlt hj heq
    rw [List.length_map] at hj
    have hkept : ∀ (k : Nat) (hk : k < entries.length),
        (Catalog.ofList entries).entries[place k]? = some entries[k] := fun k hk =>
      hkeeps k _ ((h.builtAt_iff k _).mp (List.getElem?_eq_getElem hk))
    have hi : i < entries.length := hlt.trans hj
    rw [List.getElem?_map, List.getElem?_map, List.getElem?_eq_getElem hi,
      List.getElem?_eq_getElem hj] at heq
    have hsame : place i = place j :=
      eq_of_getElem?_name (hkept i hi) (hkept j hj) (Option.some.inj heq)
    have hij := hplace i j (h.length_eq ▸ hi) (h.length_eq ▸ hj) hsame
    omega
  · intro hnodup
    refine ⟨id, fun i j _ _ hij => hij, fun i entry hbuilt => ?_⟩
    rw [Catalog.entries_ofList hnodup]
    exact (h.builtAt_iff i entry).mpr hbuilt

/-- Give each load its label, or else the name with its number among the loads without a label.
In a model that is built from statements, the tables have these names in the order of first use,
and under each name stands the table that was built from the last load of that name. Every load
keeps a table of its own exactly if the names are distinct. -/
theorem tableOrigins_of_ofStatements {statements : List Statement} {model : DataModel}
    (h : DataModel.ofStatements statements = .ok model) :
    TableOrigins statements model.tables := by
  obtain ⟨after, hafter, rfl⟩ := DataModel.ofStatements_eq_ok h
  obtain ⟨entries, hbuilds⟩ := exists_builds hafter
  refine ⟨?_, fun name table => ?_, ?_, hbuilds.keepsTables_iff⟩
  · show after.model.tables.names = _
    rw [hbuilds.tables, Catalog.names_ofList, hbuilds.names]
  · show after.model.tables.get? name = _ ↔ _
    rw [hbuilds.tables, Catalog.get?_ofList_eq_some_iff_getElem?, hbuilds.names]
    simp only [hbuilds.builtAt_iff]
  · intro i j first second
    exact loadNames_ne_of_isUnlabelled

/-- A load of a file, with or without a label. -/
def fileLoad (label : Option String) (path : String) : Statement :=
  .load { kind := .external, label, fields := [], source := some path, condition := none
          grouping := none, ordering := none, join := none, distinct := false, rows := none }

/-- A load without a label after one whose label is the name that it gets. -/
def numberedStatements : List Statement :=
  [fileLoad (some "Table1") "a.csv", fileLoad (some "Sales") "b.csv", fileLoad none "c.csv"]

/-- The table of the first load is gone, and its place is taken by that of the last. -/
theorem tableOrigins_of_numberedStatements :
    ∃ model, DataModel.ofStatements numberedStatements = .ok model ∧
      TableOrigins numberedStatements model.tables ∧
      model.tables.names = ["Table1", "Sales"] ∧
      (∃ table, model.tables.get? "Table1" = some table ∧ table.sourcePath = some "c.csv") ∧
      ¬ KeepsTables numberedStatements model.tables := by
  have hnames : loadNames (loads numberedStatements) = ["Table1", "Sales", "Table1"] := by
    decide +kernel
  obtain ⟨model, hmodel, htable⟩ : ∃ model,
      DataModel.ofStatements numberedStatements = .ok model ∧
        ∃ table, model.tables.get? "Table1" = some table ∧ table.sourcePath = some "c.csv" :=
    ⟨_, rfl, _, rfl, rfl⟩
  have horigins := tableOrigins_of_ofStatements hmodel
  refine ⟨model, hmodel, horigins, ?_, htable, ?_⟩
  · rw [horigins.names, hnames]
    decide
  · rw [horigins.keeps_iff, hnames]
    decide

end QlikMigration
