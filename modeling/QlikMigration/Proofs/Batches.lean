import QlikMigration.Proofs.Relationships

/-!
# One run or two

A builder that has taken in one script can take in a second. The result is that
of a fresh builder given all statements at once, in all parts but one. Tables,
mappings and variables grow statement by statement, and the execution order is
computed anew at the end of each run, so it does not matter that the first run
ended in between. Only the relationships are added up: those found after the
first run stay in front of those of all tables, and a relationship that still
holds is listed twice.
-/

namespace QlikMigration

open QlikMigration.Script

/-! ## Relationships are found once -/

/-- A name of a catalog stands at one position. -/
theorem eq_of_getElem?_name {tables : Catalog Table} {i j : Nat} {first second : String × Table}
    (hfirst : tables.entries[i]? = some first) (hsecond : tables.entries[j]? = some second)
    (hname : first.1 = second.1) : i = j := by
  rcases Nat.lt_trichotomy i j with hlt | heq | hgt
  · exact absurd hname (ne_of_getElem? hfirst hsecond hlt)
  · exact heq
  · exact absurd hname.symm (ne_of_getElem? hsecond hfirst hgt)

/-- A relationship joins the tables at one pair of positions only. -/
theorem JoinsAt.unique {tables : Catalog Table} {pair other : Nat × Nat}
    {relationship : Relationship} (hpair : JoinsAt tables.entries pair relationship)
    (hother : JoinsAt tables.entries other relationship) : pair = other := by
  obtain ⟨first, second, hfirst, hsecond, hjoins⟩ := hpair
  obtain ⟨first', second', hfirst', hsecond', hjoins'⟩ := hother
  apply Prod.ext
  · exact eq_of_getElem?_name hfirst hfirst' (hjoins.fromTable.symm.trans hjoins'.fromTable)
  · exact eq_of_getElem?_name hsecond hsecond' (hjoins.toTable.symm.trans hjoins'.toTable)

/-- No relationship is found twice in one run. -/
theorem nodup_relationships (tables : Catalog Table) : (relationships tables).Nodup := by
  obtain ⟨pairs, hsorted, -, hjoins⟩ := exists_enumerates_relationshipsAmong tables.entries
  rw [relationships]
  generalize relationshipsAmong tables.entries = found at hjoins ⊢
  induction hjoins with
  | nil => exact List.nodup_nil
  | @cons pair relationship pairs found hpair hpairs ih =>
      obtain ⟨hleast, hsorted⟩ := List.pairwise_cons.mp hsorted
      refine List.nodup_cons.mpr ⟨fun hmem => ?_, ih hsorted⟩
      obtain ⟨other, hother, hjoins⟩ := exists_mem_of_forall₂ hpairs hmem
      obtain rfl : pair = other := hpair.unique hjoins
      exact irrefl_of (Prod.Lex (· < ·) (· < ·)) pair (hleast pair hother)

/-! ## Two runs of one builder -/

namespace Builder

/-- A run succeeds exactly if all statements are taken in, and then the model is
finished. -/
theorem run_eq_ok_iff {builder after : Builder} {statements : List Statement} :
    builder.run statements = .ok after ↔
      ∃ taken, statements.foldlM add builder = .ok taken ∧ after = taken.finish := by
  refine ⟨run_eq_ok, ?_⟩
  rintro ⟨taken, htaken, rfl⟩
  rw [run, htaken]
  rfl

/-- Finishing a model changes neither tables nor names. -/
theorem alike_finish (builder : Builder) : Alike builder builder.finish :=
  ⟨rfl, rfl⟩

/-- Two runs of one builder both return exactly if one run over all statements does. -/
theorem exists_run_run_iff {builder : Builder} {first second : List Statement}
    (hnamed : ∀ statement ∈ second, statement.NamesJoin) :
    (∃ middle last, builder.run first = .ok middle ∧ middle.run second = .ok last) ↔
      ∃ batch, builder.run (first ++ second) = .ok batch := by
  simp only [run_eq_ok_iff, foldlM_add_append_eq_ok]
  constructor
  · rintro ⟨_, _, ⟨taken, hfirst, rfl⟩, other, hother, -⟩
    obtain ⟨whole, hwhole, -⟩ := taken.alike_finish.symm.foldlM hnamed hother
    exact ⟨_, whole, ⟨taken, hfirst, hwhole⟩, rfl⟩
  · rintro ⟨_, whole, ⟨taken, hfirst, hwhole⟩, -⟩
    obtain ⟨other, hother, -⟩ := taken.alike_finish.foldlM hnamed hwhole
    exact ⟨_, _, ⟨taken, hfirst, rfl⟩, other, hother, rfl⟩

/-- A builder after two runs, against a builder after one run over all statements. The
two differ in the relationships that the first run has left. -/
structure AgreesWithBatch (middle last batch : Builder) : Prop where
  tables : last.model.tables = batch.model.tables
  mappings : last.model.mappings = batch.model.mappings
  bindings : last.model.bindings = batch.model.bindings
  executionOrder : last.model.executionOrder = batch.model.executionOrder
  generated : last.generated = batch.generated
  relationships :
    last.model.relationships = middle.model.relationships ++ batch.model.relationships
  twice : ∀ relationship ∈ middle.model.relationships,
    relationship ∈ batch.model.relationships →
      last.model.relationships.count relationship = 2

/-- The relationships of a fresh builder after one run are those of its tables, each of
them once. -/
theorem relationships_of_run {statements : List Statement} {after : Builder}
    (h : Builder.run {} statements = .ok after) :
    after.model.relationships = QlikMigration.relationships after.model.tables ∧
      after.model.relationships.Nodup := by
  have hmodel : DataModel.ofStatements statements = .ok after.model := by
    rw [DataModel.ofStatements, h]
  have hfound := DataModel.relationships_eq hmodel
  refine ⟨hfound, ?_⟩
  rw [hfound]
  exact nodup_relationships after.model.tables

theorem agreesWithBatch_of_run {first second : List Statement} {middle last batch : Builder}
    (hnamed : ∀ statement ∈ second, statement.NamesJoin)
    (hmiddle : Builder.run {} first = .ok middle) (hlast : middle.run second = .ok last)
    (hbatch : Builder.run {} (first ++ second) = .ok batch) :
    AgreesWithBatch middle last batch := by
  obtain ⟨hmiddleFound, hmiddleNodup⟩ := relationships_of_run hmiddle
  obtain ⟨hbatchFound, hbatchNodup⟩ := relationships_of_run hbatch
  obtain ⟨taken, hfirst, rfl⟩ := run_eq_ok hmiddle
  obtain ⟨other, hother, rfl⟩ := run_eq_ok hlast
  obtain ⟨whole, hwhole, rfl⟩ := run_eq_ok hbatch
  -- From the end of the first script on, the two builders go side by side.
  obtain ⟨start, hstart, hrest⟩ := foldlM_add_append_eq_ok.mp hwhole
  obtain rfl : start = taken := Except.ok.inj (hstart.symm.trans hfirst)
  obtain ⟨whole', hwhole', halike⟩ := start.alike_finish.symm.foldlM hnamed hother
  obtain rfl : whole' = whole := Except.ok.inj (hwhole'.symm.trans hrest)
  have hsecond := extends_of_foldlM hother
  have hsecond' := extends_of_foldlM hrest
  have hrelationships : other.finish.model.relationships =
      start.finish.model.relationships ++ whole'.finish.model.relationships := by
    rw [hbatchFound]
    show other.model.relationships ++ QlikMigration.relationships other.model.tables = _
    rw [hsecond.relationships, halike.tables]
    rfl
  refine ⟨halike.tables, hsecond.mappings.trans hsecond'.mappings.symm,
    hsecond.bindings.trans hsecond'.bindings.symm, ?_, halike.generated, hrelationships, ?_⟩
  · exact congrArg QlikMigration.executionOrder halike.tables
  · intro relationship hbefore hafter
    rw [hrelationships, List.count_append, List.count_eq_one_of_mem hmiddleNodup hbefore,
      List.count_eq_one_of_mem hbatchNodup hafter]

/-- Taking in statements and after them a script gives what taking them in at once gives,
apart from the relationships left by the first run: either way returns exactly if the
other does, and a relationship that holds before and after is listed twice. -/
theorem agreesWithBatch_of_readScript {late : String} (first : List Statement)
    {second : List Statement} (hsecond : readScript late = .ok second) :
    ((∃ middle last, Builder.run {} first = .ok middle ∧ middle.run second = .ok last) ↔
        ∃ batch, Builder.run {} (first ++ second) = .ok batch) ∧
      ∀ middle last batch, Builder.run {} first = .ok middle → middle.run second = .ok last →
        Builder.run {} (first ++ second) = .ok batch → AgreesWithBatch middle last batch := by
  have hnamed := namesJoin_of_readScript hsecond
  exact ⟨exists_run_run_iff hnamed, fun _ _ _ => agreesWithBatch_of_run hnamed⟩

/-- A load of all columns of inline rows that only have a header. -/
def starLoad (label : Option String) (join : Option Join) (header : List String) : Statement :=
  .load { kind := .inlined, label, fields := [⟨"*", none, false⟩], source := none,
          condition := none, grouping := none, ordering := none, join, distinct := false,
          rows := some [header] }

def earlyStatements : List Statement :=
  [starLoad (some "A") none ["k", "x"], starLoad (some "B") none ["k"]]

def lateStatements : List Statement :=
  [.assign ⟨"n", "1", true⟩, starLoad (some "B") none ["k", "y"],
    starLoad none (some ⟨.left, "A", none⟩) ["k", "z"]]

/-- The second script defines a table of the first anew and joins a table without a label
to another. One relationship holds before and after it. -/
theorem agreesWithBatch_of_redefinition :
    readScript "A: LOAD * INLINE [k, x];\nB: LOAD * INLINE [k];" = .ok earlyStatements ∧
      readScript "LET n = 1;\nB: LOAD * INLINE [k, y];\nLEFT JOIN (A) LOAD * INLINE [k, z];" =
        .ok lateStatements ∧
      ∃ middle last batch, Builder.run {} earlyStatements = .ok middle ∧
        middle.run lateStatements = .ok last ∧
        Builder.run {} (earlyStatements ++ lateStatements) = .ok batch ∧
        AgreesWithBatch middle last batch ∧
        batch.model.tables.names = ["A", "B", "Table1"] ∧
        middle.model.relationships = [⟨"A", "B", ["k"], ["k"], "many_to_one"⟩] ∧
        batch.model.relationships =
          [⟨"A", "B", ["k"], ["k"], "many_to_one"⟩, ⟨"A", "Table1", ["k"], ["k"], "many_to_one"⟩,
            ⟨"B", "Table1", ["k"], ["k"], "many_to_one"⟩] := by
  have hlate : readScript
      "LET n = 1;\nB: LOAD * INLINE [k, y];\nLEFT JOIN (A) LOAD * INLINE [k, z];" =
        .ok lateStatements := by
    decide +kernel
  refine ⟨by decide +kernel, hlate, _, _, _, rfl, rfl, rfl, ?_, ?_, ?_, ?_⟩
  · exact (agreesWithBatch_of_readScript earlyStatements hlate).2 _ _ _ rfl rfl rfl
  · decide +kernel
  · cbv
  · cbv

end Builder

end QlikMigration
