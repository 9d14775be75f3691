import QlikMigration.Proofs.ConversionFailure

/-!
# What statements change and what they depend on

Besides the tables, a statement can change the mappings and the variables of a
model, and each of these two depends on the statements alone. The relationships
and the execution order are left as they are until the model is finished.

What a load does depends on the tables and on the number of generated names. It
depends on the execution order only if its join names no table, and no join that
is read from a script leaves the name out. So two builders that agree on tables
and names stay alike when they take in the same statements, whatever else they
hold.
-/

namespace QlikMigration

open QlikMigration.Script

/-- The mappings after a statement. -/
def mappingsAfter (mappings : Catalog Mapping) : Statement → Catalog Mapping
  | .mapping load => mappings.put load.name (Builder.mappingOf load)
  | _ => mappings

/-- If a statement is a load with a join, the join names its table. -/
def Script.Statement.NamesJoin : Statement → Prop
  | .load loading => ∀ join ∈ loading.join, join.table ≠ ""
  | _ => True

namespace Builder

/-! ## The parts apart from the tables -/

/-- What statements that are taken in do to a model apart from its tables. -/
structure Extends (statements : List Statement) (before after : DataModel) : Prop where
  mappings : after.mappings = statements.foldl mappingsAfter before.mappings
  bindings : after.bindings = statements.foldl Variables.after before.bindings
  relationships : after.relationships = before.relationships
  executionOrder : after.executionOrder = before.executionOrder

theorem extends_of_add {builder after : Builder} {statement : Statement}
    (h : builder.add statement = .ok after) : Extends [statement] builder.model after.model := by
  cases statement with
  | load load =>
      obtain ⟨table, -, hmodel⟩ := addLoad_eq_ok h
      rw [hmodel]
      exact ⟨rfl, rfl, rfl, rfl⟩
  | mapping load =>
      cases h
      exact ⟨rfl, rfl, rfl, rfl⟩
  | assign assignment =>
      cases h
      exact ⟨rfl, rfl, rfl, rfl⟩

theorem extends_of_foldlM {builder after : Builder} {statements : List Statement}
    (h : statements.foldlM add builder = .ok after) :
    Extends statements builder.model after.model := by
  induction statements generalizing builder with
  | nil =>
      cases h
      exact ⟨rfl, rfl, rfl, rfl⟩
  | cons statement statements ih =>
      obtain ⟨next, hadd, hrest⟩ := foldlM_add_cons_eq_ok.mp h
      have hfirst := extends_of_add hadd
      have hlater := ih hrest
      refine ⟨?_, ?_, ?_, ?_⟩
      · rw [hlater.mappings, hfirst.mappings]
        rfl
      · rw [hlater.bindings, hfirst.bindings]
        rfl
      · rw [hlater.relationships, hfirst.relationships]
      · rw [hlater.executionOrder, hfirst.executionOrder]

/-! ## Builders side by side -/

/-- Two builders have the same tables and have generated the same number of names. -/
structure Alike (first second : Builder) : Prop where
  tables : first.model.tables = second.model.tables
  generated : first.generated = second.generated

namespace Alike

variable {first second : Builder}

theorem symm (h : Alike first second) : Alike second first :=
  ⟨h.tables.symm, h.generated.symm⟩

/-- Alike builders give a load the same name. -/
theorem nameFor (h : Alike first second) (load : Load) :
    (first.nameFor load).1 = (second.nameFor load).1 ∧
      Alike (first.nameFor load).2 (second.nameFor load).2 := by
  unfold Builder.nameFor
  cases present? load.label with
  | some label => exact ⟨rfl, h⟩
  | none =>
      dsimp only
      rw [h.generated]
      exact ⟨rfl, h.tables, rfl⟩

/-- Alike builders define the same table for a load whose join names its table. -/
theorem tableOf (h : Alike first second) (name : String) {load : Load}
    (hnamed : (Statement.load load).NamesJoin) :
    first.tableOf name load = second.tableOf name load := by
  have horigin : first.originTable name load = second.originTable name load := by
    unfold originTable
    rw [h.tables]
  have hjoin : load.join.map (first.joinStep name) = load.join.map (second.joinStep name) := by
    apply Option.map_congr
    intro join hjoin
    have hleft : (join.table == "") = false := beq_eq_false_iff_ne.mpr (hnamed join hjoin)
    simp only [joinStep, hleft, h.tables, Bool.false_eq_true, if_false]
  have hlater : ∀ columns, first.laterSteps name load columns =
      second.laterSteps name load columns := by
    intro columns
    rw [laterSteps, laterSteps, hjoin]
  unfold Builder.tableOf
  rw [horigin]
  simp only [hlater]

/-- What one of two alike builders takes in, the other takes in with the same effect on
tables and names. -/
theorem add (h : Alike first second) {statement : Statement} (hnamed : statement.NamesJoin)
    {next : Builder} (hadd : first.add statement = .ok next) :
    ∃ other, second.add statement = .ok other ∧ Alike next other := by
  cases statement with
  | assign assignment =>
      cases hadd
      exact ⟨_, rfl, h.tables, h.generated⟩
  | mapping load =>
      cases hadd
      exact ⟨_, rfl, h.tables, h.generated⟩
  | load load =>
      obtain ⟨hname, hnext⟩ := h.nameFor load
      have htable := hnext.tableOf (first.nameFor load).1 hnamed
      simp only [Builder.add, addLoad] at hadd ⊢
      rw [htable, hname] at hadd
      cases hdefined : (second.nameFor load).2.tableOf (second.nameFor load).1 load with
      | error cause =>
          rw [hdefined] at hadd
          cases hadd
      | ok table =>
          rw [hdefined] at hadd
          cases hadd
          refine ⟨_, rfl, ?_, hnext.generated⟩
          rw [hnext.tables]

theorem foldlM (h : Alike first second) {statements : List Statement}
    (hnamed : ∀ statement ∈ statements, statement.NamesJoin) {next : Builder}
    (htaken : statements.foldlM Builder.add first = .ok next) :
    ∃ other, statements.foldlM Builder.add second = .ok other ∧ Alike next other := by
  induction statements generalizing first second with
  | nil =>
      cases htaken
      exact ⟨second, rfl, h⟩
  | cons statement statements ih =>
      obtain ⟨middle, hadd, hrest⟩ := foldlM_add_cons_eq_ok.mp htaken
      obtain ⟨middle', hadd', halike⟩ := h.add (hnamed statement List.mem_cons_self) hadd
      obtain ⟨other, hrest', hother⟩ := ih halike
        (fun later hlater => hnamed later (List.mem_cons_of_mem statement hlater)) hrest
      exact ⟨other, foldlM_add_cons_eq_ok.mpr ⟨middle', hadd', hrest'⟩, hother⟩

end Alike

/-! ## One load of a model -/

/-- A load among the statements of which a model is built, with the builder before and after it
and the table that it defines. -/
structure Takes (model : DataModel) (front : List Statement) (load : Load) (back : List Statement)
    (before next : Builder) (table : Table) : Prop where
  taken : front.foldlM Builder.add {} = .ok before
  added : before.addLoad load = .ok next
  defined : (before.nameFor load).2.tableOf (before.nameFor load).1 load = .ok table
  later : ∃ after, back.foldlM Builder.add next = .ok after ∧ model.tables = after.model.tables
  /-- The table stays, unless a later load is given its name. -/
  stays : ¬ next.Names back (before.nameFor load).1 →
    model.tables.get? (before.nameFor load).1 = some table

theorem exists_takes {model : DataModel} {front back : List Statement} {load : Load}
    (h : DataModel.ofStatements (front ++ .load load :: back) = .ok model) :
    ∃ before next table, Takes model front load back before next table := by
  obtain ⟨after, hafter, rfl⟩ := DataModel.ofStatements_eq_ok h
  obtain ⟨before, next, hfront, hadd, hback⟩ := foldlM_add_append_cons_eq_ok hafter
  obtain ⟨table, hdefined, hput⟩ := addLoad_eq_ok hadd
  refine ⟨before, next, table, hfront, hadd, hdefined, ⟨after, hback, rfl⟩, fun hnamed => ?_⟩
  show after.model.tables.get? _ = some table
  rw [get?_of_not_names hback hnamed, hput]
  exact Catalog.get?_put_self _ _ _

end Builder

/-! ## Joins of a script -/

theorem ne_nil_of_joinTable? {rest name : List Char} (h : joinTable? rest = some (some name)) :
    name ≠ [] := by
  unfold joinTable? at h
  split at h
  · split at h <;> cases h
  · split at h
    · cases h
    · split at h
      · next hnamed =>
        cases h
        simpa using (Bool.and_eq_true_iff.mp hnamed).1
      · cases h

/-- A join that is read from a line has words before its table and no keys of its own. -/
theorem exists_joinTable?_of_readJoin {line : List Char} {join : Join}
    (h : readJoin line = .ok (some join)) :
    ∃ rest name, afterJoinWords? line = some rest ∧ joinTable? rest = some (some name) ∧
      join.table = String.ofList name ∧ join.keys = none := by
  unfold readJoin at h
  split at h
  · cases h
  · next rest hwords =>
    split at h
    · cases h
    · next table htable =>
      cases hkind : joinKind (joinCapitals (line.take (line.length - rest.length))) with
      | error error =>
          rw [hkind] at h
          cases h
      | ok kind =>
          rw [hkind] at h
          cases table with
          | none => cases h
          | some name =>
              cases h
              exact ⟨rest, name, hwords, htable, rfl, rfl⟩

theorem table_ne_empty_of_readJoin {line : List Char} {join : Join}
    (h : readJoin line = .ok (some join)) : join.table ≠ "" := by
  obtain ⟨rest, name, -, hname, htable, -⟩ := exists_joinTable?_of_readJoin h
  rw [htable]
  simpa using ne_nil_of_joinTable? hname

theorem namesJoin_of_readLine {line : List Char} {statement : Statement}
    (h : readLine line = .ok (some statement)) : statement.NamesJoin := by
  cases statement with
  | mapping load => trivial
  | assign assignment => trivial
  | load load =>
      obtain ⟨result, hjoin, rfl⟩ := exists_readJoin_of_readLine h
      intro join hmem
      have hread : result = some join := hmem
      exact table_ne_empty_of_readJoin (hjoin.trans (congrArg Except.ok hread))

/-- Every join that is read from a script names its table. -/
theorem namesJoin_of_readScript {script : String} {statements : List Statement}
    (h : readScript script = .ok statements) : ∀ statement ∈ statements, statement.NamesJoin := by
  intro statement hmem
  obtain ⟨line, -, hline⟩ := exists_line_of_mem h hmem
  exact namesJoin_of_readLine hline

end QlikMigration
