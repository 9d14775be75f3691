import Mathlib.Data.List.Nodup
import Mathlib.Logic.Relation
import QlikMigration.Model.Order
import QlikMigration.Proofs.Building
import QlikMigration.Proofs.Catalog

/-!
# The execution order is a topological order

The execution order of any catalog of tables has each table once, and a table
stands after every other table that it waits for, except where the two lie on a
cycle. The walk that computes the order is given a bound on its depth; `Walks`
states the same recursion without one, so that every fact about the walk is
proved by induction on its own steps, and the bound is shown to be large enough
once and for all.

The invariant that carries the order through the recursion is the set of tables
in progress: met but not yet left. A walk from one state to another changes
neither, and whatever it meets is reachable from the names it was given.

A builder reaches its model through any number of runs, some of which may have
stopped half way. Such a history guarantees no more about the tables than that
their names are distinct and not empty, and no more is needed here.
-/

namespace QlikMigration

/-! ## The walk without a bound -/

/-- `Walks tables walk names after` says that visiting `names` in turn from `walk`
ends in `after`. A table that was not met before is entered, what it waits for is
visited, and then it is left. -/
inductive Walks (tables : Catalog Table) : Walk → List String → Walk → Prop
  /-- Nothing is left to visit. -/
  | finished (walk : Walk) : Walks tables walk [] walk
  /-- The next name was met before. -/
  | known {walk after : Walk} {name : String} {names : List String}
      (hmet : name ∈ walk.met) (hrest : Walks tables walk names after) :
      Walks tables walk (name :: names) after
  /-- The next name is new and no table. -/
  | foreign {walk after : Walk} {name : String} {names : List String}
      (hnew : name ∉ walk.met) (hnone : tables.get? name = none)
      (hrest : Walks tables ⟨name :: walk.met, walk.left⟩ names after) :
      Walks tables walk (name :: names) after
  /-- The next name is a table that was not met before. -/
  | table {walk inner after : Walk} {name : String} {names : List String} {table : Table}
      (hnew : name ∉ walk.met) (hsome : tables.get? name = some table)
      (hinner : Walks tables ⟨name :: walk.met, walk.left⟩ (table.waitsFor name) inner)
      (hrest : Walks tables ⟨inner.met, name :: inner.left⟩ names after) :
      Walks tables walk (name :: names) after

/-- A table waits for a name. -/
def WaitsFor (tables : Catalog Table) (name dependency : String) : Prop :=
  ∃ table, tables.get? name = some table ∧ dependency ∈ table.waitsFor name

/-- A name is met, is a table, and is not left yet. -/
def Walk.InProgress (tables : Catalog Table) (walk : Walk) (name : String) : Prop :=
  name ∈ walk.met ∧ name ∈ tables.names ∧ name ∉ walk.left

/-- The tables left are distinct, and they are tables that were met. -/
structure Walk.Sound (tables : Catalog Table) (walk : Walk) : Prop where
  nodup : walk.left.Nodup
  met_of_left : ∀ name ∈ walk.left, name ∈ walk.met
  table_of_left : ∀ name ∈ walk.left, name ∈ tables.names

namespace Walks

variable {tables : Catalog Table} {walk after : Walk} {names : List String}

/-- What was met stays met. -/
theorem met_subset (h : Walks tables walk names after) : walk.met ⊆ after.met := by
  induction h with
  | finished => exact fun _ hname => hname
  | known _ _ ih => exact ih
  | foreign _ _ _ ih => exact fun name hname => ih (List.mem_cons_of_mem _ hname)
  | table _ _ _ _ ihInner ihRest =>
      exact fun name hname => ihRest (ihInner (List.mem_cons_of_mem _ hname))

/-- Every name that was to be visited is met. -/
theorem names_subset (h : Walks tables walk names after) : names ⊆ after.met := by
  induction h with
  | finished => exact List.nil_subset _
  | known hmet hrest ih => exact List.cons_subset.mpr ⟨hrest.met_subset hmet, ih⟩
  | foreign _ _ hrest ih =>
      exact List.cons_subset.mpr ⟨hrest.met_subset List.mem_cons_self, ih⟩
  | table _ _ hinner hrest _ ih =>
      have hentered := hinner.met_subset List.mem_cons_self
      exact List.cons_subset.mpr ⟨hrest.met_subset hentered, ih⟩

/-- Tables are only added to those left, the latest first. -/
theorem left_suffix (h : Walks tables walk names after) : walk.left <:+ after.left := by
  induction h with
  | finished => exact List.suffix_refl _
  | known _ _ ih => exact ih
  | foreign _ _ _ ih => exact ih
  | table _ _ _ _ ihInner ihRest =>
      exact (ihInner.trans (List.suffix_cons _ _)).trans ihRest

/-- A walk keeps the tables in progress and stays sound. -/
theorem sound_inProgress (h : Walks tables walk names after) (hsound : walk.Sound tables) :
    after.Sound tables ∧
      ∀ name, after.InProgress tables name ↔ walk.InProgress tables name := by
  induction h with
  | finished => exact ⟨hsound, fun _ => Iff.rfl⟩
  | known _ _ ih => exact ih hsound
  | @foreign walk after entered _ hnew hnone _ ih =>
      have hforeign : entered ∉ tables.names := by
        intro hname
        obtain ⟨table, htable⟩ := Catalog.exists_get?_of_mem_names hname
        rw [hnone] at htable
        cases htable
      obtain ⟨hafter, hsame⟩ := ih ⟨hsound.nodup,
        fun name hname => List.mem_cons_of_mem _ (hsound.met_of_left name hname),
        hsound.table_of_left⟩
      refine ⟨hafter, fun name => (hsame name).trans ?_⟩
      constructor
      · rintro ⟨hmet, htable, hleft⟩
        rcases List.mem_cons.mp hmet with rfl | hmet
        · exact absurd htable hforeign
        · exact ⟨hmet, htable, hleft⟩
      · rintro ⟨hmet, htable, hleft⟩
        exact ⟨List.mem_cons_of_mem _ hmet, htable, hleft⟩
  | @table walk inner after entered _ _ hnew hsome hinner _ ihInner ihRest =>
      have htable := Catalog.mem_names_of_get? hsome
      have hunleft : entered ∉ walk.left := fun hleft =>
        hnew (hsound.met_of_left entered hleft)
      obtain ⟨hinnerSound, hinnerSame⟩ := ihInner ⟨hsound.nodup,
        fun name hname => List.mem_cons_of_mem _ (hsound.met_of_left name hname),
        hsound.table_of_left⟩
      -- The entered table is in progress all through the inner walk, so it is not left there.
      have hopen : entered ∉ inner.left :=
        ((hinnerSame entered).mpr ⟨List.mem_cons_self, htable, hunleft⟩).2.2
      have hleave : Walk.Sound tables ⟨inner.met, entered :: inner.left⟩ := by
        refine ⟨List.nodup_cons.mpr ⟨hopen, hinnerSound.nodup⟩, ?_, ?_⟩
        · intro name hname
          rcases List.mem_cons.mp hname with rfl | hname
          · exact hinner.met_subset List.mem_cons_self
          · exact hinnerSound.met_of_left name hname
        · intro name hname
          rcases List.mem_cons.mp hname with rfl | hname
          · exact htable
          · exact hinnerSound.table_of_left name hname
      obtain ⟨hafter, hsame⟩ := ihRest hleave
      refine ⟨hafter, fun name => (hsame name).trans ?_⟩
      have hinnerName := hinnerSame name
      constructor
      · rintro ⟨hmet, hnameTable, hleft⟩
        rw [List.mem_cons, not_or] at hleft
        obtain ⟨hmet, -, hwalkLeft⟩ := hinnerName.mp ⟨hmet, hnameTable, hleft.2⟩
        exact ⟨(List.mem_cons.mp hmet).resolve_left hleft.1, hnameTable, hwalkLeft⟩
      · rintro ⟨hmet, hnameTable, hleft⟩
        obtain ⟨hinnerMet, -, hinnerLeft⟩ :=
          hinnerName.mpr ⟨List.mem_cons_of_mem _ hmet, hnameTable, hleft⟩
        refine ⟨hinnerMet, hnameTable, ?_⟩
        rw [List.mem_cons, not_or]
        exact ⟨fun heq => hnew (heq ▸ hmet), hinnerLeft⟩

/-- What a walk meets is reachable from one of the names it was given. -/
theorem reachable_of_met (h : Walks tables walk names after) {name : String}
    (hname : name ∈ after.met) :
    name ∈ walk.met ∨
      ∃ start ∈ names, Relation.ReflTransGen (WaitsFor tables) start name := by
  induction h with
  | finished => exact Or.inl hname
  | known _ _ ih =>
      rcases ih hname with hmet | ⟨start, hstart, hreach⟩
      · exact Or.inl hmet
      · exact Or.inr ⟨start, List.mem_cons_of_mem _ hstart, hreach⟩
  | foreign _ _ _ ih =>
      rcases ih hname with hmet | ⟨start, hstart, hreach⟩
      · rcases List.mem_cons.mp hmet with rfl | hmet
        · exact Or.inr ⟨name, List.mem_cons_self, Relation.ReflTransGen.refl⟩
        · exact Or.inl hmet
      · exact Or.inr ⟨start, List.mem_cons_of_mem _ hstart, hreach⟩
  | @table walk inner after entered _ table _ hsome _ _ ihInner ihRest =>
      rcases ihRest hname with hmet | ⟨start, hstart, hreach⟩
      · rcases ihInner hmet with hmet | ⟨start, hstart, hreach⟩
        · rcases List.mem_cons.mp hmet with rfl | hmet
          · exact Or.inr ⟨name, List.mem_cons_self, Relation.ReflTransGen.refl⟩
          · exact Or.inl hmet
        · have hedge : WaitsFor tables entered start := ⟨table, hsome, hstart⟩
          exact Or.inr ⟨entered, List.mem_cons_self, Relation.ReflTransGen.head hedge hreach⟩
      · exact Or.inr ⟨start, List.mem_cons_of_mem _ hstart, hreach⟩

/-- A table left by a walk comes after every other table that it waits for, unless
that table reaches it or was in progress when the walk began. In the list of
tables left, which has the latest first, "after" reads from right to left. -/
theorem precedes_of_waitsFor (h : Walks tables walk names after) (hsound : walk.Sound tables)
    {name dependency : String} (hleft : name ∈ after.left) (hold : name ∉ walk.left)
    (hwaits : WaitsFor tables name dependency) (htable : dependency ∈ tables.names)
    (hne : name ≠ dependency) :
    List.Sublist [name, dependency] after.left ∨
      Relation.ReflTransGen (WaitsFor tables) dependency name ∨
        walk.InProgress tables dependency := by
  induction h with
  | finished => exact absurd hleft hold
  | known _ _ ih => exact ih hsound hleft hold
  | foreign hnew hnone hrest ih =>
      have hentered := (Walks.foreign hnew hnone (Walks.finished _)).sound_inProgress hsound
      rcases ih hentered.1 hleft hold with hsub | hreach | hopen
      · exact Or.inl hsub
      · exact Or.inr (Or.inl hreach)
      · exact Or.inr (Or.inr ((hentered.2 dependency).mp hopen))
  | @table walk inner after entered _ table hnew hsome hinner hrest ihInner ihRest =>
      have hwhole := (Walks.table hnew hsome hinner (Walks.finished _)).sound_inProgress hsound
      have henter : Walk.Sound tables ⟨entered :: walk.met, walk.left⟩ := ⟨hsound.nodup,
        fun other hother => List.mem_cons_of_mem _ (hsound.met_of_left other hother),
        hsound.table_of_left⟩
      obtain ⟨hinnerSound, hinnerSame⟩ := hinner.sound_inProgress henter
      by_cases hbefore : name ∈ entered :: inner.left
      · rcases List.mem_cons.mp hbefore with rfl | hinnerLeft
        · -- The entered table itself: what it waits for was visited before it was left.
          obtain ⟨other, hother, hmem⟩ := hwaits
          rw [hsome] at hother
          cases hother
          have hmet := hinner.names_subset hmem
          by_cases hdone : dependency ∈ inner.left
          · have hpair : List.Sublist [name, dependency] (name :: inner.left) :=
              (List.singleton_sublist.mpr hdone).cons_cons name
            exact Or.inl (hpair.trans hrest.left_suffix.sublist)
          · obtain ⟨hopen, -, hunleft⟩ := (hinnerSame dependency).mp ⟨hmet, htable, hdone⟩
            have hopen := (List.mem_cons.mp hopen).resolve_left (Ne.symm hne)
            exact Or.inr (Or.inr ⟨hopen, htable, hunleft⟩)
        · rcases ihInner henter hinnerLeft hold with hsub | hreach | hopen
          · have hinnerSub := hsub.trans (List.sublist_cons_self entered inner.left)
            exact Or.inl (hinnerSub.trans hrest.left_suffix.sublist)
          · exact Or.inr (Or.inl hreach)
          · by_cases hself : dependency = entered
            · -- What the inner walk left is reachable from the table it was started for.
              subst hself
              have hmet := hinnerSound.met_of_left name hinnerLeft
              rcases hinner.reachable_of_met hmet with hmet | ⟨start, hstart, hreach⟩
              · have hopenName : walk.InProgress tables name :=
                  ⟨(List.mem_cons.mp hmet).resolve_left hne,
                    hinnerSound.table_of_left name hinnerLeft, hold⟩
                have hstill := (hinnerSame name).mpr
                  ⟨List.mem_cons_of_mem _ hopenName.1, hopenName.2⟩
                exact absurd hinnerLeft hstill.2.2
              · exact Or.inr (Or.inl (Relation.ReflTransGen.head ⟨table, hsome, hstart⟩ hreach))
            · have hmet := (List.mem_cons.mp hopen.1).resolve_left hself
              exact Or.inr (Or.inr ⟨hmet, hopen.2⟩)
      · rcases ihRest hwhole.1 hleft hbefore with hsub | hreach | hopen
        · exact Or.inl hsub
        · exact Or.inr (Or.inl hreach)
        · exact Or.inr (Or.inr ((hwhole.2 dependency).mp hopen))

/-- Two walks through the same names from the same state end in the same state. -/
theorem unique {other : Walk} (h : Walks tables walk names after)
    (hother : Walks tables walk names other) : after = other := by
  induction h generalizing other with
  | finished => cases hother; rfl
  | known hmet _ ih =>
      cases hother with
      | known _ hrest => exact ih hrest
      | foreign hnew => exact absurd hmet hnew
      | table hnew => exact absurd hmet hnew
  | foreign hnew hnone _ ih =>
      cases hother with
      | known hmet => exact absurd hmet hnew
      | foreign _ _ hrest => exact ih hrest
      | table _ hsome =>
          rw [hnone] at hsome
          cases hsome
  | table hnew hsome _ _ ihInner ihRest =>
      cases hother with
      | known hmet => exact absurd hmet hnew
      | foreign _ hnone =>
          rw [hnone] at hsome
          cases hsome
      | table _ hsome' hinner hrest =>
          rw [hsome] at hsome'
          cases hsome'
          rw [← ihInner hinner] at hrest
          exact ihRest hrest

end Walks

/-! ## The bound is large enough -/

/-- The tables that a walk has not met. -/
def Walk.unmet (tables : Catalog Table) (walk : Walk) : List String :=
  tables.names.filter (· ∉ walk.met)

/-- Meeting more names leaves fewer tables unmet. -/
theorem Walk.length_unmet_le {tables : Catalog Table} {walk after : Walk}
    (hmet : walk.met ⊆ after.met) :
    (after.unmet tables).length ≤ (walk.unmet tables).length := by
  apply List.Sublist.length_le
  apply List.monotone_filter_right
  intro name hname
  simp only [decide_eq_true_eq] at hname ⊢
  exact fun h => hname (hmet h)

/-- Entering a table that was not met leaves strictly fewer tables unmet. -/
theorem Walk.length_unmet_enter_lt {tables : Catalog Table} {walk : Walk} {name : String}
    (hnew : name ∉ walk.met) (htable : name ∈ tables.names) :
    (Walk.unmet tables ⟨name :: walk.met, walk.left⟩).length <
      (walk.unmet tables).length := by
  have hsplit : Walk.unmet tables ⟨name :: walk.met, walk.left⟩ =
      (walk.unmet tables).filter (· ≠ name) := by
    simp [Walk.unmet, List.filter_filter]
  rw [hsplit]
  apply List.length_filter_lt_length_iff_exists.mpr
  exact ⟨name, List.mem_filter.mpr ⟨htable, by simpa using hnew⟩, by simp⟩

/-- A walk whose depth exceeds the number of tables not met is the walk without a
bound. -/
theorem walks_foldl_visit {tables : Catalog Table} {depth : Nat} {walk : Walk}
    (names : List String) (hdepth : (walk.unmet tables).length < depth) :
    Walks tables walk names (names.foldl (Walk.visit tables depth) walk) := by
  induction depth generalizing walk names with
  | zero => exact absurd hdepth (Nat.not_lt_zero _)
  | succ depth ihDepth =>
      induction names generalizing walk with
      | nil => exact Walks.finished walk
      | cons name names ihNames =>
          rw [List.foldl_cons]
          by_cases hmet : name ∈ walk.met
          · have hvisit : Walk.visit tables (depth + 1) walk name = walk := by
              simp [Walk.visit, hmet]
            rw [hvisit]
            exact Walks.known hmet (ihNames hdepth)
          · have hentered : walk.met ⊆ name :: walk.met := List.subset_cons_self _ _
            cases hfound : tables.get? name with
            | none =>
                have hvisit : Walk.visit tables (depth + 1) walk name =
                    ⟨name :: walk.met, walk.left⟩ := by
                  simp [Walk.visit, hmet, hfound]
                rw [hvisit]
                have hle : (Walk.unmet tables ⟨name :: walk.met, walk.left⟩).length ≤
                    (walk.unmet tables).length := Walk.length_unmet_le hentered
                exact Walks.foreign hmet hfound (ihNames (by omega))
            | some table =>
                have hlt := Walk.length_unmet_enter_lt hmet (Catalog.mem_names_of_get? hfound)
                have hinner := ihDepth (table.waitsFor name) (Nat.lt_of_lt_of_le hlt (by omega))
                have hvisit : Walk.visit tables (depth + 1) walk name =
                    ⟨((table.waitsFor name).foldl (Walk.visit tables depth)
                        ⟨name :: walk.met, walk.left⟩).met,
                      name :: ((table.waitsFor name).foldl (Walk.visit tables depth)
                        ⟨name :: walk.met, walk.left⟩).left⟩ := by
                  simp [Walk.visit, hmet, hfound]
                rw [hvisit]
                generalize (table.waitsFor name).foldl (Walk.visit tables depth)
                  ⟨name :: walk.met, walk.left⟩ = inner at hinner ⊢
                have hle : (Walk.unmet tables ⟨inner.met, name :: inner.left⟩).length ≤
                    (walk.unmet tables).length :=
                  Walk.length_unmet_le (List.Subset.trans hentered hinner.met_subset)
                exact Walks.table hmet hfound hinner (ihNames (by omega))

/-! ## Topological orders -/

/-- A table depends on a name: one of its steps lists it, or it is the source of the
table and the table reads another one. -/
def DependsOn (tables : Catalog Table) (name dependency : String) : Prop :=
  ∃ table, tables.get? name = some table ∧
    ((∃ step ∈ table.steps, dependency ∈ step.dependencies) ∨
      (table.sourceType = "resident" ∧ table.sourcePath = some dependency))

/-- An order of the tables of a catalog, each of them once, in which a table comes
after every other table that it depends on and that does not depend on it in turn,
directly or through others. -/
structure Topological (tables : Catalog Table) (order : List String) : Prop where
  nodup : order.Nodup
  mem_iff : ∀ name, name ∈ order ↔ name ∈ tables.names
  precedes : ∀ name dependency, name ∈ tables.names → dependency ∈ tables.names →
    name ≠ dependency → DependsOn tables name dependency →
    ¬ Relation.ReflTransGen (DependsOn tables) dependency name →
    List.Sublist [dependency, name] order

/-- A table depends on whatever it waits for. -/
theorem WaitsFor.dependsOn {tables : Catalog Table} {name dependency : String}
    (h : WaitsFor tables name dependency) : DependsOn tables name dependency := by
  obtain ⟨table, htable, hmem⟩ := h
  refine ⟨table, htable, ?_⟩
  rcases List.mem_append.mp hmem with hstep | hsource
  · rw [List.mem_filter, Table.stepDependencies, List.mem_flatMap] at hstep
    exact Or.inl hstep.1
  · right
    split at hsource
    · next path hpath =>
      split at hsource
      · next hresident =>
        rw [List.mem_singleton] at hsource
        subst hsource
        rw [Bool.and_eq_true, beq_iff_eq] at hresident
        exact ⟨hresident.1, hpath⟩
      · exact absurd hsource List.not_mem_nil
    · exact absurd hsource List.not_mem_nil

/-- A table waits for every other name that it depends on; a source without a name
is not waited for. -/
theorem DependsOn.waitsFor {tables : Catalog Table} {name dependency : String}
    (h : DependsOn tables name dependency) (hne : name ≠ dependency)
    (hempty : dependency ≠ "") : WaitsFor tables name dependency := by
  obtain ⟨table, htable, hstep | ⟨hresident, hpath⟩⟩ := h
  · refine ⟨table, htable, List.mem_append_left _ ?_⟩
    rw [List.mem_filter, Table.stepDependencies, List.mem_flatMap]
    exact ⟨hstep, by simpa using Ne.symm hne⟩
  · refine ⟨table, htable, List.mem_append_right _ ?_⟩
    rw [hpath]
    simp [hresident, hempty]

/-- The execution order is what the walk through all tables leaves behind. -/
theorem exists_walks_executionOrder (tables : Catalog Table) :
    ∃ walk, Walks tables Walk.start tables.names walk ∧
      executionOrder tables = walk.left.reverse := by
  refine ⟨_, walks_foldl_visit tables.names ?_, rfl⟩
  have hle : (Walk.start.unmet tables).length ≤ tables.names.length :=
    List.length_filter_le _ _
  rw [Catalog.names, List.length_map] at hle
  exact Nat.lt_succ_of_le hle

/-- The execution order of any catalog in which no table has the empty name is a
topological order. -/
theorem topological_executionOrder {tables : Catalog Table} (hempty : "" ∉ tables.names) :
    Topological tables (executionOrder tables) := by
  obtain ⟨walk, hwalk, horder⟩ := exists_walks_executionOrder tables
  have hstart : Walk.start.Sound tables :=
    ⟨List.nodup_nil, fun _ h => absurd h List.not_mem_nil, fun _ h => absurd h List.not_mem_nil⟩
  have hidle : ∀ name, ¬ Walk.start.InProgress tables name :=
    fun _ h => absurd h.1 List.not_mem_nil
  obtain ⟨hsound, hsame⟩ := hwalk.sound_inProgress hstart
  have hleft : ∀ name, name ∈ tables.names → name ∈ walk.left := by
    intro name hname
    by_contra hunleft
    exact hidle name ((hsame name).mp ⟨hwalk.names_subset hname, hname, hunleft⟩)
  rw [horder]
  refine ⟨List.nodup_reverse.mpr hsound.nodup, fun name => ?_, ?_⟩
  · rw [List.mem_reverse]
    exact ⟨hsound.table_of_left name, hleft name⟩
  · intro name dependency hname hdependency hne hdepends hreach
    have hnonempty : dependency ≠ "" := fun heq => hempty (heq ▸ hdependency)
    have hwaits := hdepends.waitsFor hne hnonempty
    rcases hwalk.precedes_of_waitsFor hstart (hleft name hname) List.not_mem_nil hwaits
      hdependency hne with hsub | hback | hopen
    · exact List.reverse_sublist.mpr hsub
    · have hweaker : ∀ a b, WaitsFor tables a b → DependsOn tables a b :=
        fun _ _ hedge => hedge.dependsOn
      exact absurd (Relation.ReflTransGen.mono hweaker _ _ hback) hreach
    · exact absurd hopen (hidle dependency)

/-- After every run that returns, whatever runs of the same builder went before, the
execution order is a topological order of the tables. The walk behind it ends, in
exactly one way, on every catalog of tables, from every state and for every list
of names. -/
theorem run_executionOrder_topological {history : List (List Script.Statement)}
    {statements : List Script.Statement} {builder : Builder}
    (hreturned : (Builder.afterRuns history).run statements = .ok builder) :
    Topological builder.model.tables builder.model.executionOrder ∧
      ∀ tables : Catalog Table,
        (∀ walk names, ∃! after, Walks tables walk names after) ∧
          ∃ after, Walks tables Walk.start tables.names after ∧
            executionOrder tables = after.left.reverse := by
  constructor
  · obtain ⟨taken, htaken, rfl⟩ := Builder.run_eq_ok hreturned
    have hnamed := ((Builder.named_afterRuns history).of_foldlM statements).1 taken htaken
    exact topological_executionOrder hnamed
  · intro tables
    refine ⟨fun walk names => ?_, exists_walks_executionOrder tables⟩
    have hwalk := walks_foldl_visit names (Nat.lt_succ_self (walk.unmet tables).length)
    exact ⟨_, hwalk, fun other hother => hother.unique hwalk⟩

/-- A load of a labelled table from another table, which may be left out. -/
def bareResident (label : String) (source : Option String) : Script.Statement :=
  .load { kind := .resident, label := some label, fields := [], source := source,
          condition := none, grouping := none, ordering := none, join := none,
          distinct := false, rows := none }

/-- A cycle of two tables, then a run that stops, then a run that breaks the cycle by
giving one of the tables a source that is only defined after it. -/
theorem run_executionOrder_topological_forward :
    ∃ builder,
      (Builder.afterRuns
        [[bareResident "Orders" "Items", bareResident "Items" "Orders"],
         [bareResident "Lost" none]]).run
        [bareResident "Items" "Stock", bareResident "Stock" "Stock"] = .ok builder ∧
      builder.model.executionOrder = ["Stock", "Items", "Orders"] ∧
      Topological builder.model.tables builder.model.executionOrder := by
  have hreturned : ∃ builder,
      (Builder.afterRuns
        [[bareResident "Orders" "Items", bareResident "Items" "Orders"],
         [bareResident "Lost" none]]).run
        [bareResident "Items" "Stock", bareResident "Stock" "Stock"] = .ok builder ∧
      builder.model.executionOrder = ["Stock", "Items", "Orders"] :=
    ⟨_, rfl, by decide +kernel⟩
  obtain ⟨builder, hrun, horder⟩ := hreturned
  exact ⟨builder, hrun, horder, (run_executionOrder_topological hrun).1⟩

end QlikMigration
