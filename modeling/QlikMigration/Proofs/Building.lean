import Mathlib.Data.List.Nodup
import QlikMigration.Model.Build
import QlikMigration.Proofs.Catalog
import QlikMigration.Proofs.Effects

/-!
# What building a model does

A statement changes the tables of a builder in one way only: a load puts the
table it defines under a name that is not empty. That is said once here, for
statements that are taken in and for those that stop the builder, and whatever
holds of a builder after every run is derived from it. A history is a list of
runs of one builder; a run that stops leaves the builder where it stopped, and
the next run goes on from there.
-/

namespace QlikMigration

open QlikMigration.Script

/-- A text that is present is not empty. -/
theorem ne_empty_of_present? {text : Option String} {found : String}
    (h : present? text = some found) : found ≠ "" := by
  rw [present?, Option.filter_eq_some_iff] at h
  simpa using h.2

namespace Builder

/-! ## One load -/

/-- Naming a load leaves the model alone. -/
@[simp]
theorem model_nameFor (builder : Builder) (load : Load) :
    (builder.nameFor load).2.model = builder.model := by
  unfold nameFor
  split <;> rfl

/-- The name of a load's table is not empty. -/
theorem nameFor_ne_empty (builder : Builder) (load : Load) :
    (builder.nameFor load).1 ≠ "" := by
  unfold nameFor
  split
  · next label hlabel => exact ne_empty_of_present? hlabel
  · intro hempty
    have hlength := congrArg String.length hempty
    rw [String.length_append] at hlength
    simp at hlength

/-- A load that is taken in puts its table under its name. -/
theorem addLoad_eq_ok {builder after : Builder} {load : Load}
    (h : builder.addLoad load = .ok after) :
    ∃ table,
      (builder.nameFor load).2.tableOf (builder.nameFor load).1 load = .ok table ∧
        after.model = { builder.model with
          tables := builder.model.tables.put (builder.nameFor load).1 table } := by
  simp only [addLoad] at h
  split at h
  · next table htable =>
    cases h
    exact ⟨table, htable, by rw [model_nameFor]⟩
  · cases h

/-- A load that is not taken in leaves the model alone. -/
theorem addLoad_eq_error {builder : Builder} {load : Load} {stopped : Stopped}
    (h : builder.addLoad load = .error stopped) :
    (builder.nameFor load).2.tableOf (builder.nameFor load).1 load = .error stopped.cause ∧
      stopped.builder.model = builder.model := by
  simp only [addLoad] at h
  split at h
  · cases h
  · next cause hcause =>
    cases h
    exact ⟨hcause, model_nameFor builder load⟩

/-! ## One statement -/

/-- A statement that is taken in leaves the tables alone or puts one under a name
that is not empty. -/
theorem tables_of_add_eq_ok {builder after : Builder} {statement : Statement}
    (h : builder.add statement = .ok after) :
    after.model.tables = builder.model.tables ∨
      ∃ name table, name ≠ "" ∧
        after.model.tables = builder.model.tables.put name table := by
  cases statement with
  | load load =>
      obtain ⟨table, -, hmodel⟩ := addLoad_eq_ok h
      exact Or.inr ⟨_, table, nameFor_ne_empty builder load, by rw [hmodel]⟩
  | mapping load =>
      cases h
      exact Or.inl rfl
  | assign assignment =>
      cases h
      exact Or.inl rfl

/-- A statement that stops the builder leaves the model alone. -/
theorem model_of_add_eq_error {builder : Builder} {statement : Statement} {stopped : Stopped}
    (h : builder.add statement = .error stopped) : stopped.builder.model = builder.model := by
  cases statement with
  | load load => exact (addLoad_eq_error h).2
  | mapping load => cases h
  | assign assignment => cases h

/-! ## Runs and histories -/

/-- What every statement preserves, taken in or not, holds wherever a list of
statements ends. -/
theorem foldlM_add_induction {motive : Builder → Prop}
    (hok : ∀ builder statement after,
      motive builder → builder.add statement = .ok after → motive after)
    (herror : ∀ builder statement stopped,
      motive builder → builder.add statement = .error stopped → motive stopped.builder)
    (statements : List Statement) {builder : Builder} (hstart : motive builder) :
    (∀ after, statements.foldlM add builder = .ok after → motive after) ∧
      ∀ stopped, statements.foldlM add builder = .error stopped → motive stopped.builder := by
  induction statements generalizing builder with
  | nil =>
      constructor
      · intro after h
        cases h
        exact hstart
      · intro stopped h
        cases h
  | cons statement statements ih =>
      rw [List.foldlM_cons]
      cases hadd : builder.add statement with
      | ok next => exact ih (hok builder statement next hstart hadd)
      | error stopped =>
          constructor
          · intro after h
            cases h
          · intro stopped' h
            cases h
            exact herror builder statement stopped hstart hadd

/-- A statement and those after it are taken in exactly if first the statement is and
then the others are. -/
theorem foldlM_add_cons_eq_ok {builder after : Builder} {statement : Statement}
    {statements : List Statement} :
    (statement :: statements).foldlM add builder = .ok after ↔
      ∃ next, builder.add statement = .ok next ∧ statements.foldlM add next = .ok after := by
  rw [List.foldlM_cons]
  exact bind_eq_ok_iff

/-- Statements are taken in exactly if they are in two parts, one after the other. -/
theorem foldlM_add_append_eq_ok {builder after : Builder} {front back : List Statement} :
    (front ++ back).foldlM add builder = .ok after ↔
      ∃ middle, front.foldlM add builder = .ok middle ∧ back.foldlM add middle = .ok after := by
  rw [List.foldlM_append]
  exact bind_eq_ok_iff

/-- Statements that are all taken in are taken in one after the other. -/
theorem foldlM_add_append_cons_eq_ok {builder after : Builder} {front back : List Statement}
    {statement : Statement} (h : (front ++ statement :: back).foldlM add builder = .ok after) :
    ∃ before next, front.foldlM add builder = .ok before ∧ before.add statement = .ok next ∧
      back.foldlM add next = .ok after := by
  obtain ⟨before, hfront, hrest⟩ := foldlM_add_append_eq_ok.mp h
  obtain ⟨next, hadd, hback⟩ := foldlM_add_cons_eq_ok.mp hrest
  exact ⟨before, next, hfront, hadd, hback⟩

/-- A table that is there after statements was there before them, or one of their loads
puts it under its name. -/
theorem exists_nameFor_of_get? {builder after : Builder} {statements : List Statement}
    {name : String} {table : Table} (h : statements.foldlM add builder = .ok after)
    (hget : after.model.tables.get? name = some table) :
    builder.model.tables.get? name = some table ∨
      ∃ before load, Statement.load load ∈ statements ∧ (nameFor before load).1 = name ∧
        (nameFor before load).2.tableOf name load = .ok table := by
  induction statements generalizing builder with
  | nil =>
      cases h
      exact Or.inl hget
  | cons statement statements ih =>
      obtain ⟨next, hadd, hrest⟩ := foldlM_add_cons_eq_ok.mp h
      rcases ih hrest with hnext | ⟨before, load, hload, hname, htable⟩
      · cases statement with
        | load load =>
            obtain ⟨added, hadded, hmodel⟩ := addLoad_eq_ok hadd
            rw [hmodel] at hnext
            rcases Catalog.get?_put_eq_some hnext with ⟨rfl, rfl⟩ | hold
            · exact Or.inr ⟨builder, load, List.mem_cons_self, rfl, hadded⟩
            · exact Or.inl hold
        | mapping load =>
            cases hadd
            exact Or.inl hnext
        | assign assignment =>
            cases hadd
            exact Or.inl hnext
      · exact Or.inr ⟨before, load, List.mem_cons_of_mem statement hload, hname, htable⟩

/-- A table that is there after statements was there before them, or one of their loads
defines it. -/
theorem get?_of_foldlM {builder after : Builder} {statements : List Statement} {name : String}
    {table : Table} (h : statements.foldlM add builder = .ok after)
    (hget : after.model.tables.get? name = some table) :
    builder.model.tables.get? name = some table ∨
      ∃ before load, Statement.load load ∈ statements ∧
        Builder.tableOf before name load = .ok table := by
  rcases exists_nameFor_of_get? h hget with hold | ⟨before, load, hload, -, htable⟩
  · exact Or.inl hold
  · exact Or.inr ⟨_, load, hload, htable⟩

/-- One of the statements is a load that is given a name. -/
def Names (builder : Builder) (statements : List Statement) (name : String) : Prop :=
  ∃ front load back before, statements = front ++ .load load :: back ∧
    front.foldlM add builder = .ok before ∧ (nameFor before load).1 = name

theorem not_names_nil (builder : Builder) (name : String) : ¬ builder.Names [] name := by
  rintro ⟨front, load, back, -, hnil, -⟩
  simp at hnil

/-- Of the loads that are given a name one is the last. -/
theorem Names.exists_last {builder after : Builder} {statements : List Statement} {name : String}
    (hname : builder.Names statements name) (h : statements.foldlM add builder = .ok after) :
    ∃ front load back before next, statements = front ++ .load load :: back ∧
      front.foldlM add builder = .ok before ∧ before.addLoad load = .ok next ∧
      back.foldlM add next = .ok after ∧ (nameFor before load).1 = name ∧
      ¬ next.Names back name := by
  induction statements generalizing builder with
  | nil => exact absurd hname (not_names_nil builder name)
  | cons statement statements ih =>
      obtain ⟨next, hadd, hrest⟩ := foldlM_add_cons_eq_ok.mp h
      by_cases hlater : next.Names statements name
      · obtain ⟨front, load, back, before, last, rfl, hfront, hlast⟩ := ih hlater hrest
        exact ⟨statement :: front, load, back, before, last, rfl,
          foldlM_add_cons_eq_ok.mpr ⟨next, hadd, hfront⟩, hlast⟩
      · -- The statement itself has to be the load that is given the name.
        obtain ⟨front, load, back, before, hcut, hfront, hload⟩ := hname
        cases front with
        | nil =>
            cases hcut
            cases hfront
            exact ⟨[], load, statements, builder, next, rfl, rfl, hadd, hrest, hload, hlater⟩
        | cons first front =>
            cases hcut
            obtain ⟨other, hother, hfront⟩ := foldlM_add_cons_eq_ok.mp hfront
            obtain rfl : next = other := Except.ok.inj (hadd.symm.trans hother)
            exact absurd ⟨front, load, back, before, rfl, hfront, hload⟩ hlater

/-- Statements leave the table under a name alone, unless one of their loads is given the
name. -/
theorem get?_of_not_names {builder after : Builder} {statements : List Statement} {name : String}
    (h : statements.foldlM add builder = .ok after) (hname : ¬ builder.Names statements name) :
    after.model.tables.get? name = builder.model.tables.get? name := by
  induction statements generalizing builder with
  | nil =>
      cases h
      rfl
  | cons statement statements ih =>
      obtain ⟨next, hadd, hrest⟩ := foldlM_add_cons_eq_ok.mp h
      have hlater : ¬ next.Names statements name := by
        rintro ⟨front, load, back, before, rfl, hfront, hload⟩
        exact hname ⟨statement :: front, load, back, before, rfl,
          foldlM_add_cons_eq_ok.mpr ⟨next, hadd, hfront⟩, hload⟩
      rw [ih hrest hlater]
      cases statement with
      | load load =>
          have hother : name ≠ (builder.nameFor load).1 := fun heq =>
            hname ⟨[], load, statements, builder, rfl, rfl, heq.symm⟩
          obtain ⟨table, -, hmodel⟩ := addLoad_eq_ok hadd
          rw [hmodel]
          exact Catalog.get?_put_of_ne _ _ hother
      | mapping load =>
          cases hadd
          rfl
      | assign assignment =>
          cases hadd
          rfl

/-- A table that is there stays or is replaced by one of its name. -/
theorem mem_names_of_foldlM {builder after : Builder} {statements : List Statement} {name : String}
    (hname : name ∈ builder.model.tables.names) (h : statements.foldlM add builder = .ok after) :
    name ∈ after.model.tables.names := by
  refine (foldlM_add_induction (motive := fun builder => name ∈ builder.model.tables.names)
    ?_ ?_ statements hname).1 after h
  · intro builder statement next hname hadd
    rcases tables_of_add_eq_ok hadd with hsame | ⟨other, table, -, hput⟩
    · rwa [hsame]
    · rw [hput, Catalog.mem_names_put]
      exact Or.inl hname
  · intro builder statement stopped hname hadd
    rwa [model_of_add_eq_error hadd]

/-- A run that returns has taken in all statements and finished the model. -/
theorem run_eq_ok {builder after : Builder} {statements : List Statement}
    (h : builder.run statements = .ok after) :
    ∃ taken, statements.foldlM add builder = .ok taken ∧ after = taken.finish := by
  unfold run at h
  cases htaken : statements.foldlM add builder with
  | ok taken =>
      rw [htaken] at h
      cases h
      exact ⟨taken, rfl, rfl⟩
  | error stopped =>
      rw [htaken] at h
      cases h

/-- The builder after a run, finished or stopped. -/
def afterRun (builder : Builder) (statements : List Statement) : Builder :=
  match builder.run statements with
  | .ok after => after
  | .error stopped => stopped.builder

/-- The builder after a history of runs. -/
def afterRuns (history : List (List Statement)) : Builder :=
  history.foldl afterRun {}

/-- No table has an empty name. -/
def Named (builder : Builder) : Prop :=
  "" ∉ builder.model.tables.names

theorem Named.of_tables_eq {builder other : Builder} (hnamed : builder.Named)
    (htables : other.model.tables = builder.model.tables) : other.Named := by
  rw [Named, htables]
  exact hnamed

/-- A statement that is taken in keeps the tables named. -/
theorem Named.of_add {builder after : Builder} {statement : Statement}
    (hnamed : builder.Named) (h : builder.add statement = .ok after) : after.Named := by
  rcases tables_of_add_eq_ok h with hsame | ⟨name, table, hname, hput⟩
  · exact hnamed.of_tables_eq hsame
  · rw [Named, hput, Catalog.mem_names_put, not_or]
    exact ⟨hnamed, hname.symm⟩

/-- Statements keep the tables named, whether or not all are taken in. -/
theorem Named.of_foldlM {builder : Builder} (hnamed : builder.Named)
    (statements : List Statement) :
    (∀ after, statements.foldlM add builder = .ok after → after.Named) ∧
      ∀ stopped, statements.foldlM add builder = .error stopped → stopped.builder.Named :=
  foldlM_add_induction (fun _ _ _ hnamed h => hnamed.of_add h)
    (fun _ _ _ hnamed h => hnamed.of_tables_eq (by rw [model_of_add_eq_error h]))
    statements hnamed

/-- A run keeps the tables named. -/
theorem Named.afterRun {builder : Builder} (hnamed : builder.Named)
    (statements : List Statement) : (builder.afterRun statements).Named := by
  obtain ⟨hok, herror⟩ := hnamed.of_foldlM statements
  unfold Builder.afterRun run
  cases htaken : statements.foldlM add builder with
  | ok taken => exact (hok taken htaken).of_tables_eq rfl
  | error stopped => exact herror stopped htaken

/-- After any history the tables are named. -/
theorem named_afterRuns (history : List (List Statement)) : (afterRuns history).Named := by
  have hall : ∀ (runs : List (List Statement)) (builder : Builder), builder.Named →
      (runs.foldl Builder.afterRun builder).Named := by
    intro runs
    induction runs with
    | nil => exact fun _ hnamed => hnamed
    | cons statements runs ih => exact fun _ hnamed => ih _ (hnamed.afterRun statements)
  exact hall history {} List.not_mem_nil

end Builder

end QlikMigration
