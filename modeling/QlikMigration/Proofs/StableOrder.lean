import QlikMigration.Proofs.ExecutionOrder

/-!
# When the execution order is the order of definition

A walk through the tables in their order finds each table with everything before
it left behind. If what the table waits for is among that, nothing new is
entered on its account, and it is left next. If it waits for a table that comes
later, that one is left first, and the two orders part for good. So the
execution order is the order of definition exactly if no table waits for one
that is defined after it.

Between two tables of the outer walk no table is in progress. The step below is
stated for such a walk, in both directions at once, and the run over all tables
follows by induction on them.
-/

namespace QlikMigration

/-- Every table that was met is left. -/
structure Walk.Settled (tables : Catalog Table) (walk : Walk) : Prop where
  sound : walk.Sound tables
  idle : ∀ name, ¬ walk.InProgress tables name

theorem Walk.settled_start (tables : Catalog Table) : Walk.start.Settled tables where
  sound := ⟨List.nodup_nil, fun _ h => absurd h List.not_mem_nil,
    fun _ h => absurd h List.not_mem_nil⟩
  idle _ h := absurd h.1 List.not_mem_nil

/-- In a settled walk the tables met are those left. -/
theorem Walk.Settled.mem_left {tables : Catalog Table} {walk : Walk} (h : walk.Settled tables)
    {name : String} (hmet : name ∈ walk.met) (htable : name ∈ tables.names) :
    name ∈ walk.left := by
  by_contra hleft
  exact h.idle name ⟨hmet, htable, hleft⟩

namespace Walks

variable {tables : Catalog Table} {walk after : Walk} {name : String} {names : List String}

/-- A settled walk is settled again at its end. -/
theorem settled (h : Walks tables walk names after) (hsettled : walk.Settled tables) :
    after.Settled tables := by
  obtain ⟨hsound, hsame⟩ := h.sound_inProgress hsettled.sound
  exact ⟨hsound, fun name hopen => hsettled.idle name ((hsame name).mp hopen)⟩

/-- A walk visits its first name, and then the others. -/
theorem exists_of_cons (h : Walks tables walk (name :: names) after) :
    ∃ middle, Walks tables walk [name] middle ∧ Walks tables middle names after := by
  cases h with
  | known hmet hrest => exact ⟨walk, .known hmet (.finished walk), hrest⟩
  | foreign hnew hnone hrest => exact ⟨_, .foreign hnew hnone (.finished _), hrest⟩
  | table hnew hsome hinner hrest => exact ⟨_, .table hnew hsome hinner (.finished _), hrest⟩

/-- Names that are no tables, and tables that were met, leave the tables left as they are. -/
theorem left_eq_of_met (h : Walks tables walk names after)
    (hmet : ∀ name ∈ names, name ∈ tables.names → name ∈ walk.met) : after.left = walk.left := by
  induction h with
  | finished => rfl
  | known _ _ ih => exact ih fun other hother => hmet other (List.mem_cons_of_mem _ hother)
  | foreign _ _ _ ih =>
      refine ih fun other hother htable => List.mem_cons_of_mem _ ?_
      exact hmet other (List.mem_cons_of_mem _ hother) htable
  | table hnew hsome =>
      exact absurd (hmet _ List.mem_cons_self (Catalog.mem_names_of_get? hsome)) hnew

/-- A new table is left after whatever its visit leaves. From a settled walk nothing else is left
exactly if each table it waits for is the table itself or was left before. -/
theorem left_of_visit (h : Walks tables walk [name] after) (hsettled : walk.Settled tables)
    (htable : name ∈ tables.names) (hnew : name ∉ walk.left) :
    ∃ inner, after.left = name :: inner ∧
      (inner = walk.left ↔ ∀ dependency, WaitsFor tables name dependency →
        dependency ∈ tables.names → dependency = name ∨ dependency ∈ walk.left) := by
  have hunmet : name ∉ walk.met := fun hmet => hnew (hsettled.mem_left hmet htable)
  cases h with
  | known hmet => exact absurd hmet hunmet
  | foreign _ hnone =>
      obtain ⟨table, hsome⟩ := Catalog.exists_get?_of_mem_names htable
      rw [hnone] at hsome
      cases hsome
  | @table _ inner _ _ _ table _ hsome hinner hrest =>
      cases hrest
      refine ⟨inner.left, rfl, ?_, ?_⟩
      · rintro hsame dependency ⟨other, hother, hmem⟩ hdependency
        obtain rfl : table = other := Option.some.inj (hsome.symm.trans hother)
        have hentered : Walk.Sound tables ⟨name :: walk.met, walk.left⟩ := ⟨hsettled.sound.nodup,
          fun left hleft => List.mem_cons_of_mem _ (hsettled.sound.met_of_left left hleft),
          hsettled.sound.table_of_left⟩
        by_cases hleft : dependency ∈ walk.left
        · exact Or.inr hleft
        · -- What was met and not left is in progress, and only the table itself is.
          have hopen := ((hinner.sound_inProgress hentered).2 dependency).mp
            ⟨hinner.names_subset hmem, hdependency, hsame ▸ hleft⟩
          refine Or.inl ((List.mem_cons.mp hopen.1).resolve_right fun hmet => ?_)
          exact hleft (hsettled.mem_left hmet hdependency)
      · intro hwaits
        refine hinner.left_eq_of_met fun dependency hmem hdependency => ?_
        rcases hwaits dependency ⟨table, hsome, hmem⟩ hdependency with rfl | hleft
        · exact List.mem_cons_self
        · exact List.mem_cons_of_mem _ (hsettled.sound.met_of_left dependency hleft)

/-- From a settled walk new tables are left in their order exactly if each table they wait for
is the table itself, one before it or one left already. -/
theorem left_eq_iff (h : Walks tables walk names after) (hsettled : walk.Settled tables)
    (hnodup : names.Nodup) (htables : ∀ name ∈ names, name ∈ tables.names)
    (hnew : ∀ name ∈ names, name ∉ walk.left) :
    after.left = names.reverse ++ walk.left ↔
      ∀ front name back, names = front ++ name :: back → ∀ dependency,
        WaitsFor tables name dependency → dependency ∈ tables.names →
          dependency = name ∨ dependency ∈ front ∨ dependency ∈ walk.left := by
  induction names generalizing walk with
  | nil =>
      cases h
      simp
  | cons first names ih =>
      obtain ⟨middle, hfirst, hrest⟩ := h.exists_of_cons
      obtain ⟨hfresh, hnodup⟩ := List.nodup_cons.mp hnodup
      obtain ⟨htable, htables⟩ := List.forall_mem_cons.mp htables
      obtain ⟨hfirstNew, hlaterNew⟩ := List.forall_mem_cons.mp hnew
      obtain ⟨inner, hmiddle, hinner⟩ := hfirst.left_of_visit hsettled htable hfirstNew
      have hgoal : after.left = (first :: names).reverse ++ walk.left ↔
          inner = walk.left ∧ after.left = names.reverse ++ middle.left := by
        rw [List.reverse_cons, List.append_assoc, List.singleton_append, hmiddle]
        constructor
        · intro hleft
          -- The first table stands in one place only, so the tables around it are the same.
          obtain ⟨later, hlater⟩ := hrest.left_suffix
          have hdistinct := (hrest.settled (hfirst.settled hsettled)).sound.nodup
          rw [hmiddle, hleft] at hlater
          rw [hleft, List.nodup_middle, List.nodup_cons, List.mem_append, not_or] at hdistinct
          obtain ⟨-, -, hsame⟩ := (List.append_cons_inj_of_notMem hdistinct.1.1
            hdistinct.1.2).mp hlater.symm
          exact ⟨hsame.symm, by rw [hleft, hsame]⟩
        · rintro ⟨rfl, hleft⟩
          exact hleft
      have hstep (hsame : inner = walk.left) := by
        refine ih hrest (hfirst.settled hsettled) hnodup htables fun later hlater => ?_
        rw [hmiddle, hsame, List.mem_cons, not_or]
        exact ⟨fun heq => hfresh (heq ▸ hlater), hlaterNew later hlater⟩
      -- To the tables behind the first it makes no difference whether it was left or stands before.
      have hmoved (hsame : inner = walk.left) (dependency : String) (front : List String) :
          dependency ∈ front ∨ dependency ∈ middle.left ↔
            dependency ∈ first :: front ∨ dependency ∈ walk.left := by
        rw [hmiddle, hsame, List.mem_cons, List.mem_cons, or_assoc, or_left_comm]
      rw [hgoal]
      constructor
      · rintro ⟨hsame, hleft⟩ front name back hcut dependency hwaits hdependency
        cases front with
        | nil =>
            cases hcut
            exact (hinner.mp hsame dependency hwaits hdependency).imp id Or.inr
        | cons _ front =>
            cases hcut
            have hlater := (hstep hsame).mp hleft front name back rfl dependency hwaits hdependency
            exact hlater.imp id (hmoved hsame dependency front).mp
      · intro hall
        have hsame : inner = walk.left := by
          refine hinner.mpr fun dependency hwaits hdependency => ?_
          exact (hall [] first names rfl dependency hwaits hdependency).imp id
            fun hbefore => hbefore.resolve_left List.not_mem_nil
        refine ⟨hsame, (hstep hsame).mpr
          fun front name back hcut dependency hwaits hdependency => ?_⟩
        have hlater := hall (first :: front) name back (congrArg (first :: ·) hcut) dependency
          hwaits hdependency
        exact hlater.imp id (hmoved hsame dependency front).mpr

end Walks

/-! ## Tables in order -/

/-- No table depends on a table that is defined after it. -/
def DefinedInOrder (tables : Catalog Table) : Prop :=
  ∀ (i j : Nat) (name dependency : String), tables.names[i]? = some name →
    tables.names[j]? = some dependency → DependsOn tables name dependency → j ≤ i

/-- Among distinct names, one stands at or before a position exactly if it is the name there or
one of those before. -/
theorem le_iff_of_nodup {names : List String} {name other : String} {i j : Nat}
    (hnodup : names.Nodup) (hi : names[i]? = some name) (hj : names[j]? = some other) :
    j ≤ i ↔ other = name ∨ other ∈ names.take i := by
  obtain ⟨hlt, hget⟩ := List.getElem?_eq_some_iff.mp hj
  constructor
  · intro hle
    rcases Nat.lt_or_eq_of_le hle with hbefore | rfl
    · rw [← List.getElem?_take_of_lt hbefore] at hj
      exact Or.inr (List.mem_of_getElem? hj)
    · exact Or.inl (Option.some.inj (hj.symm.trans hi))
  · rintro (rfl | hmem)
    · exact Nat.le_of_eq ((List.getElem?_inj hlt hnodup).mp (hj.trans hi.symm))
    · obtain ⟨k, hk, heq⟩ := List.mem_take_iff_getElem.mp hmem
      have hjk : j = k := (hnodup.getElem_inj_iff).mp (hget.trans heq.symm)
      omega

/-- Tables are executed in the order of their definition exactly if none waits for a later one. -/
theorem executionOrder_eq_names_iff (tables : Catalog Table) :
    executionOrder tables = tables.names ↔
      ∀ (i j : Nat) (name dependency : String), tables.names[i]? = some name →
        tables.names[j]? = some dependency → WaitsFor tables name dependency → j ≤ i := by
  obtain ⟨walk, hwalk, horder⟩ := exists_walks_executionOrder tables
  have hleft := hwalk.left_eq_iff (Walk.settled_start tables)
    tables.nodup_names (fun _ hname => hname)
    fun _ _ => List.not_mem_nil
  rw [show Walk.start.left = [] from rfl, List.append_nil] at hleft
  rw [horder, List.reverse_eq_iff, hleft]
  constructor
  · intro hall i j name dependency hi hj hwaits
    obtain ⟨hlt, hget⟩ := List.getElem?_eq_some_iff.mp hi
    have hcut : tables.names = tables.names.take i ++ name :: tables.names.drop (i + 1) := by
      rw [← hget, ← List.drop_eq_getElem_cons hlt, List.take_append_drop]
    have hbefore := hall _ name _ hcut dependency hwaits (List.mem_of_getElem? hj)
    exact (le_iff_of_nodup tables.nodup_names hi hj).mpr (by simpa using hbefore)
  · intro hall front name back hcut dependency hwaits hdependency
    obtain ⟨j, hj⟩ := List.mem_iff_getElem?.mp hdependency
    have hat : tables.names[front.length]? = some name := by simp [hcut]
    have hle := hall front.length j name dependency hat hj hwaits
    rw [le_iff_of_nodup tables.nodup_names hat hj, hcut, List.take_left] at hle
    exact hle.imp id Or.inl

/-- Where the dependencies of each table that are tables stand at or before it, the execution
order is the order of definition. No other tables are executed in that order, if none has the
empty name. -/
theorem executionOrder_finish_of_definedInOrder (builder : Builder) :
    (DefinedInOrder builder.model.tables →
        builder.finish.model.executionOrder = builder.model.tables.names) ∧
      ("" ∉ builder.model.tables.names →
        builder.finish.model.executionOrder = builder.model.tables.names →
          DefinedInOrder builder.model.tables) := by
  constructor
  · intro hordered
    refine (executionOrder_eq_names_iff _).mpr fun i j name dependency hi hj hwaits => ?_
    exact hordered i j name dependency hi hj hwaits.dependsOn
  · intro hempty horder i j name dependency hi hj hdepends
    by_cases heq : name = dependency
    · exact (le_iff_of_nodup builder.model.tables.nodup_names hi hj).mpr (Or.inl heq.symm)
    · have hnonempty : dependency ≠ "" := fun hname => hempty (hname ▸ List.mem_of_getElem? hj)
      exact (executionOrder_eq_names_iff _).mp horder i j name dependency hi hj
        (hdepends.waitsFor heq hnonempty)

/-- A table from a file, and one that reads it, itself and a name that is no table. -/
def salesTables : Catalog Table :=
  .ofList [("Sales", { name := "Sales", sourcePath := some "sales.csv" }),
    ("Large", { name := "Large", sourceType := "resident", sourcePath := some "Sales",
                steps := [⟨.select "Large" (some "Sales") [] false, ["Sales"]⟩,
                  ⟨.join "Large" "Rates" "Large" "left" [] none, ["Rates", "Large"]⟩,
                  ⟨.select "Large" (some "Large") [] true, ["Large"]⟩] })]

theorem executionOrder_finish_of_salesTables :
    DefinedInOrder salesTables ∧
      (Builder.finish { model.tables := salesTables }).model.executionOrder =
        ["Sales", "Large"] := by
  have hordered : DefinedInOrder salesTables := by
    rintro i j name dependency hi hj ⟨table, htable, hdepends⟩
    by_contra hlater
    have hlast : j < 2 := (List.getElem?_eq_some_iff.mp hj).1
    obtain rfl : i = 0 := by omega
    obtain rfl : "Sales" = name := Option.some.inj hi
    obtain rfl := Option.some.inj htable
    simp at hdepends
  exact ⟨hordered,
    (executionOrder_finish_of_definedInOrder { model.tables := salesTables }).1 hordered⟩

end QlikMigration
