import Mathlib.Data.List.Forall2
import Mathlib.Data.List.Permutation
import Mathlib.Data.String.Basic
import QlikMigration.Proofs.JoinKeys
import QlikMigration.Proofs.Runs

/-!
# Relationships between the tables of a model

The relationships of a model go through its tables in the order in which they
were first defined: all those of the first table with later ones come before
those of the second, and so on. There is one for each two tables that have a
column name in common and none for the others. It goes from the earlier table to
the later one, over all their common names in sorted order.

A position in the catalog stands for a table here, so that the order of the
relationships can be stated as the lexicographic order of pairs of positions. A
list of pairs that is strictly increasing in that order and has given members is
unique, which is what makes the enumeration a specification.
-/

namespace QlikMigration

open QlikMigration.Script QlikMigration.Json

/-! ## Sorted names -/

theorem nodup_eraseDups (names : List String) : names.eraseDups.Nodup := by
  cases names with
  | nil => exact List.nodup_nil
  | cons name names =>
      rw [List.eraseDups_cons, List.nodup_cons]
      refine ⟨?_, nodup_eraseDups _⟩
      rw [List.mem_eraseDups]
      simp
termination_by names.length
decreasing_by exact Nat.lt_succ_of_le (List.length_filter_le _ _)

/-- Sorted names are strictly increasing, so none of them is listed twice. -/
theorem pairwise_lt_sortedNames (names : List String) :
    (sortedNames names).Pairwise (· < ·) := by
  have hsorted : (sortedNames names).Pairwise fun a b => decide (a ≤ b) = true := by
    apply List.pairwise_mergeSort
    · intro a b c hab hbc
      exact decide_eq_true (le_trans (of_decide_eq_true hab) (of_decide_eq_true hbc))
    · intro a b
      rw [Bool.or_eq_true, decide_eq_true_iff, decide_eq_true_iff]
      exact le_total a b
  have hnodup : (sortedNames names).Nodup :=
    (List.mergeSort_perm _ _).nodup_iff.mpr (nodup_eraseDups names)
  refine (hsorted.and hnodup).imp ?_
  intro a b hab
  exact lt_of_le_of_ne (of_decide_eq_true hab.1) hab.2

/-! ## Two tables -/

/-- Two tables have a column name in common. -/
def Table.Shares (first second : Table) : Prop :=
  ∃ column, column ∈ first.columnNames ∧ column ∈ second.columnNames

/-- A relationship goes from one named table to another, over exactly their common
column names. -/
structure Relationship.Joins (relationship : Relationship) (first second : String × Table) :
    Prop where
  fromTable : relationship.fromTable = first.1
  toTable : relationship.toTable = second.1
  kind : relationship.kind = "many_to_one"
  toColumns : relationship.toColumns = relationship.fromColumns
  sorted : relationship.fromColumns.Pairwise (· < ·)
  mem_iff : ∀ column, column ∈ relationship.fromColumns ↔
    column ∈ first.2.columnNames ∧ column ∈ second.2.columnNames

theorem joins_of_relate? {first second : String × Table} {relationship : Relationship}
    (h : relate? first second = some relationship) : relationship.Joins first second := by
  simp only [relate?] at h
  split at h
  · cases h
  · cases h
    exact ⟨rfl, rfl, rfl, rfl, pairwise_lt_sortedNames _, fun _ => mem_commonColumns⟩

/-- There is a relationship between two tables exactly if they share a column. -/
theorem exists_relate?_iff {first second : String × Table} :
    (∃ relationship, relate? first second = some relationship) ↔ first.2.Shares second.2 := by
  have hcommon : first.2.Shares second.2 ↔ commonColumns first.2 second.2 ≠ [] := by
    rw [Ne, List.eq_nil_iff_forall_not_mem, not_forall]
    exact exists_congr fun _ => mem_commonColumns.symm.trans not_not.symm
  simp only [hcommon, relate?]
  split
  · next hempty => simpa using hempty
  · next hnonempty => simpa using hnonempty

/-! ## One table and the later ones -/

/-- The relationships of one table with later ones are enumerated by the positions of
the tables that share a column with it, in increasing order. -/
theorem exists_positions (first : String × Table) (later : List (String × Table)) :
    ∃ positions : List Nat, positions.Pairwise (· < ·) ∧
      (∀ j, j ∈ positions ↔ ∃ second, later[j]? = some second ∧ first.2.Shares second.2) ∧
      List.Forall₂
        (fun j relationship => ∃ second, later[j]? = some second ∧
          relationship.Joins first second)
        positions (later.filterMap (relate? first)) := by
  induction later with
  | nil => exact ⟨[], .nil, by simp, .nil⟩
  | cons second later ih =>
      obtain ⟨positions, hsorted, hmem, hjoins⟩ := ih
      have hshifted : (positions.map (· + 1)).Pairwise (· < ·) :=
        hsorted.map _ fun _ _ hlt => Nat.succ_lt_succ hlt
      have hlater : List.Forall₂
          (fun j relationship => ∃ other, (second :: later)[j]? = some other ∧
            relationship.Joins first other)
          (positions.map (· + 1)) (later.filterMap (relate? first)) :=
        List.forall₂_map_left_iff.mpr hjoins
      have hsucc : ∀ j, j + 1 ∈ positions.map (· + 1) ↔ j ∈ positions := fun j => by simp
      cases hrelate : relate? first second with
      | none =>
          have hunshared : ¬ first.2.Shares second.2 := by
            rw [← exists_relate?_iff, hrelate]
            simp
          rw [List.filterMap_cons_none hrelate]
          refine ⟨_, hshifted, fun j => ?_, hlater⟩
          cases j with
          | zero => simpa using hunshared
          | succ j => exact (hsucc j).trans (hmem j)
      | some relationship =>
          have hshared : first.2.Shares second.2 :=
            exists_relate?_iff.mp ⟨relationship, hrelate⟩
          rw [List.filterMap_cons_some hrelate]
          refine ⟨0 :: positions.map (· + 1), ?_, fun j => ?_,
            .cons ⟨second, rfl, joins_of_relate? hrelate⟩ hlater⟩
          · rw [List.pairwise_cons]
            refine ⟨fun j hj => ?_, hshifted⟩
            obtain ⟨k, -, rfl⟩ := List.mem_map.mp hj
            exact Nat.succ_pos k
          · cases j with
            | zero => simpa using hshared
            | succ j =>
                rw [List.mem_cons, or_iff_right (Nat.succ_ne_zero j)]
                exact (hsucc j).trans (hmem j)

/-! ## All tables -/

/-- Two positions in a list, in increasing order, hold tables that share a column. -/
def Related (tables : List (String × Table)) (i j : Nat) : Prop :=
  i < j ∧ ∃ first second, tables[i]? = some first ∧ tables[j]? = some second ∧
    first.2.Shares second.2

/-- A relationship joins the tables at two positions in a list. -/
def JoinsAt (tables : List (String × Table)) (pair : Nat × Nat) (relationship : Relationship) :
    Prop :=
  ∃ first second, tables[pair.1]? = some first ∧ tables[pair.2]? = some second ∧
    relationship.Joins first second

/-- Relationships listed along pairs of positions: the pairs are those of related tables,
each of them once, in lexicographic order. -/
structure Enumerates (tables : List (String × Table)) (pairs : List (Nat × Nat))
    (found : List Relationship) : Prop where
  sorted : pairs.Pairwise (Prod.Lex (· < ·) (· < ·))
  mem_iff : ∀ i j, (i, j) ∈ pairs ↔ Related tables i j
  joins : List.Forall₂ (JoinsAt tables) pairs found

theorem related_zero_iff {first : String × Table} {later : List (String × Table)} {j : Nat} :
    Related (first :: later) 0 j ↔
      ∃ k, j = k + 1 ∧ ∃ second, later[k]? = some second ∧ first.2.Shares second.2 := by
  cases j with
  | zero => simp [Related]
  | succ k => simp [Related]

theorem related_succ_iff {first : String × Table} {later : List (String × Table)} {i j : Nat} :
    Related (first :: later) (i + 1) j ↔ ∃ k, j = k + 1 ∧ Related later i k := by
  cases j with
  | zero => simp [Related]
  | succ k => simp [Related]

theorem exists_enumerates_relationshipsAmong (tables : List (String × Table)) :
    ∃ pairs, Enumerates tables pairs (relationshipsAmong tables) := by
  induction tables with
  | nil => exact ⟨[], .nil, by simp [Related], .nil⟩
  | cons first later ih =>
      obtain ⟨pairs, hpairs⟩ := ih
      obtain ⟨positions, hsorted, hmem, hjoins⟩ := exists_positions first later
      refine ⟨positions.map (fun j => (0, j + 1)) ++ pairs.map (Prod.map (· + 1) (· + 1)),
        ?_, ?_, ?_⟩
      · rw [List.pairwise_append]
        refine ⟨hsorted.map _ fun j k hlt => .right _ (Nat.succ_lt_succ hlt),
          hpairs.sorted.map _ ?_, ?_⟩
        · rintro _ _ (⟨_, _, hlt⟩ | ⟨_, hlt⟩)
          · exact .left _ _ (Nat.succ_lt_succ hlt)
          · exact .right _ (Nat.succ_lt_succ hlt)
        · -- The pairs of the first table come before all others.
          intro early hearly late hlate
          obtain ⟨j, -, rfl⟩ := List.mem_map.mp hearly
          obtain ⟨pair, -, rfl⟩ := List.mem_map.mp hlate
          exact .left _ _ (Nat.succ_pos pair.1)
      · intro i j
        rw [List.mem_append, List.mem_map, List.mem_map]
        cases i with
        | zero =>
            rw [related_zero_iff]
            constructor
            · rintro (⟨k, hk, heq⟩ | ⟨pair, -, heq⟩)
              · cases heq
                exact ⟨k, rfl, (hmem k).mp hk⟩
              · cases heq
            · rintro ⟨k, rfl, hshared⟩
              exact Or.inl ⟨k, (hmem k).mpr hshared, rfl⟩
        | succ i =>
            rw [related_succ_iff]
            constructor
            · rintro (⟨k, -, heq⟩ | ⟨⟨m, n⟩, hpair, heq⟩)
              · cases heq
              · cases heq
                exact ⟨n, rfl, (hpairs.mem_iff _ n).mp hpair⟩
            · rintro ⟨k, rfl, hrelated⟩
              exact Or.inr ⟨(i, k), (hpairs.mem_iff i k).mpr hrelated, rfl⟩
      · have hfirst : List.Forall₂ (JoinsAt (first :: later))
            (positions.map fun j => (0, j + 1)) (later.filterMap (relate? first)) := by
          rw [List.forall₂_map_left_iff]
          apply hjoins.imp
          rintro j relationship ⟨second, hsecond, hjoin⟩
          exact ⟨first, second, rfl, hsecond, hjoin⟩
        have hlater : List.Forall₂ (JoinsAt (first :: later))
            (pairs.map (Prod.map (· + 1) (· + 1))) (relationshipsAmong later) :=
          List.forall₂_map_left_iff.mpr hpairs.joins
        exact List.rel_append hfirst hlater

theorem exists_mem_of_forall₂ {α β : Type} {R : α → β → Prop} {xs : List α} {ys : List β}
    (h : List.Forall₂ R xs ys) {y : β} (hy : y ∈ ys) : ∃ x ∈ xs, R x y := by
  induction h with
  | nil => cases hy
  | cons hhead _ ih =>
      rcases List.mem_cons.mp hy with rfl | htail
      · exact ⟨_, List.mem_cons_self, hhead⟩
      · obtain ⟨x, hx, hrel⟩ := ih htail
        exact ⟨x, List.mem_cons_of_mem _ hx, hrel⟩

/-- Tables at different positions have different names. -/
theorem ne_of_getElem? {tables : Catalog Table} {i j : Nat} {first second : String × Table}
    (hfirst : tables.entries[i]? = some first) (hsecond : tables.entries[j]? = some second)
    (hlt : i < j) : first.1 ≠ second.1 := by
  obtain ⟨hi, rfl⟩ := List.getElem?_eq_some_iff.mp hfirst
  obtain ⟨hj, rfl⟩ := List.getElem?_eq_some_iff.mp hsecond
  exact List.pairwise_iff_getElem.mp (List.pairwise_map.mp tables.nodup) i j hi hj hlt

/-- A relationship that is found joins two tables of different names with a common
column. -/
theorem Enumerates.exists_of_mem {tables : Catalog Table} {pairs : List (Nat × Nat)}
    {found : List Relationship} (h : Enumerates tables.entries pairs found)
    {relationship : Relationship} (hmem : relationship ∈ found) :
    ∃ first ∈ tables.entries, ∃ second ∈ tables.entries, first.1 ≠ second.1 ∧
      first.2.Shares second.2 ∧ relationship.Joins first second := by
  obtain ⟨⟨i, j⟩, hpair, first, second, hfirst, hsecond, hjoins⟩ :=
    exists_mem_of_forall₂ h.joins hmem
  obtain ⟨hlt, first', second', hfirst', hsecond', hshares⟩ := (h.mem_iff i j).mp hpair
  obtain rfl : first' = first := Option.some.inj (hfirst'.symm.trans hfirst)
  obtain rfl : second' = second := Option.some.inj (hsecond'.symm.trans hsecond)
  exact ⟨first', List.mem_of_getElem? hfirst, second', List.mem_of_getElem? hsecond,
    ne_of_getElem? hfirst hsecond hlt, hshares, hjoins⟩

/-! ## Documents -/

/-- The items of the array that an object has under a name. -/
def Json.Value.itemsAt (value : Value) (name : String) : List Value :=
  match value.member? name with
  | some (.array items) => items
  | _ => []

/-- A semantic model lists a table with a column. -/
def Semantic.HasColumn (document : Value) (table column : String) : Prop :=
  ∃ entry ∈ document.itemsAt "tables", entry.member? "name" = some (.text table) ∧
    ∃ item ∈ entry.itemsAt "columns", item.member? "name" = some (.text column)

theorem Semantic.itemsAt_tables (model : DataModel) :
    (Semantic.model model).itemsAt "tables" = model.tables.entries.map Semantic.table := by
  rfl

theorem Semantic.itemsAt_relationships (model : DataModel) :
    (Semantic.model model).itemsAt "relationships" =
      model.relationships.map Semantic.relationship := by
  rfl

/-- A semantic model lists the columns of every table. -/
theorem Semantic.hasColumn_of_mem {model : DataModel} {entry : String × Table} {column : String}
    (hentry : entry ∈ model.tables.entries) (hcolumn : column ∈ entry.2.columnNames) :
    HasColumn (Semantic.model model) entry.1 column := by
  obtain ⟨found, hfound, rfl⟩ := List.mem_map.mp hcolumn
  refine ⟨Semantic.table entry, ?_, rfl, Semantic.column found, ?_, rfl⟩
  · rw [itemsAt_tables]
    exact List.mem_map_of_mem hentry
  · exact List.mem_map_of_mem hfound

/-- A relationship in a semantic model names two different tables of it and one column,
which both tables have. -/
def Semantic.Links (document relationship : Value) : Prop :=
  ∃ first second column, first ≠ second ∧
    relationship.member? "fromTable" = some (.text first) ∧
    relationship.member? "toTable" = some (.text second) ∧
    relationship.member? "fromColumn" = some (.text column) ∧
    relationship.member? "toColumn" = some (.text column) ∧
    HasColumn document first column ∧ HasColumn document second column

theorem Semantic.links_of_joins {model : DataModel} {relationship : Relationship}
    {first second : String × Table} (hfirst : first ∈ model.tables.entries)
    (hsecond : second ∈ model.tables.entries) (hne : first.1 ≠ second.1)
    (hshares : first.2.Shares second.2) (hjoins : relationship.Joins first second) :
    Links (Semantic.model model) (Semantic.relationship relationship) := by
  obtain ⟨shared, hshared⟩ := hshares
  obtain ⟨column, columns, hcolumns⟩ :=
    List.exists_cons_of_ne_nil (List.ne_nil_of_mem ((hjoins.mem_iff shared).mpr hshared))
  obtain ⟨hfrom, hto⟩ := (hjoins.mem_iff column).mp (by rw [hcolumns]; exact List.mem_cons_self)
  refine ⟨first.1, second.1, column, hne, ?_, ?_, ?_, ?_, hasColumn_of_mem hfirst hfrom,
    hasColumn_of_mem hsecond hto⟩
  · rw [← hjoins.fromTable]
    rfl
  · rw [← hjoins.toTable]
    rfl
  · show some (Value.ofText? relationship.fromColumns.head?) = _
    rw [hcolumns]
    rfl
  · show some (Value.ofText? relationship.toColumns.head?) = _
    rw [hjoins.toColumns, hcolumns]
    rfl

/-! ## Models -/

/-- No table of a model has an empty name. -/
theorem DataModel.empty_not_mem_names {statements : List Statement} {model : DataModel}
    (h : DataModel.ofStatements statements = .ok model) : "" ∉ model.tables.names := by
  obtain ⟨taken, htaken, rfl⟩ := DataModel.ofStatements_eq_ok h
  have hstart : Builder.Named {} := List.not_mem_nil
  exact (hstart.of_foldlM statements).1 taken htaken

/-- The relationships of a model are those of its tables. -/
theorem DataModel.relationships_eq {statements : List Statement} {model : DataModel}
    (h : DataModel.ofStatements statements = .ok model) :
    model.relationships = QlikMigration.relationships model.tables := by
  obtain ⟨taken, htaken, rfl⟩ := DataModel.ofStatements_eq_ok h
  have hnone : taken.model.relationships = [] := (Builder.extends_of_foldlM htaken).relationships
  show taken.model.relationships ++ QlikMigration.relationships taken.model.tables = _
  rw [hnone]
  rfl

/-- The relationships of a model enumerate the pairs of its tables with a common column,
and each of them links two different tables of the semantic model by a column of both. -/
theorem relationships_of_ofStatements {statements : List Statement} {model : DataModel}
    (h : DataModel.ofStatements statements = .ok model) :
    (∃ pairs, Enumerates model.tables.entries pairs model.relationships) ∧
      ∀ entry ∈ (Semantic.model model).itemsAt "relationships",
        Semantic.Links (Semantic.model model) entry := by
  obtain ⟨pairs, hpairs⟩ := exists_enumerates_relationshipsAmong model.tables.entries
  rw [← relationships, ← DataModel.relationships_eq h] at hpairs
  refine ⟨⟨pairs, hpairs⟩, fun entry hentry => ?_⟩
  rw [Semantic.itemsAt_relationships] at hentry
  obtain ⟨relationship, hmem, rfl⟩ := List.mem_map.mp hentry
  obtain ⟨first, hfirst, second, hsecond, hne, hshares, hjoins⟩ :=
    hpairs.exists_of_mem hmem
  exact Semantic.links_of_joins hfirst hsecond hne hshares hjoins

/-- A load of inline rows that only have a header. -/
def inlineHeader (label : String) (header : List String) : Statement :=
  .load { kind := .inlined, label := some label, fields := [], source := none, condition := none,
          grouping := none, ordering := none, join := none, distinct := false,
          rows := some [header] }

/-- Four loads of three tables: the last defines the second table anew, with a column
that it shares with the third table only; the third has one of its columns twice. -/
def overlappingHeaders : List Statement :=
  [inlineHeader "A" ["k", "x"], inlineHeader "B" ["x", "k"],
    inlineHeader "C" ["y", "k", "x", "k"], inlineHeader "B" ["y"]]

theorem relationships_of_overlappingHeaders :
    ∃ model, DataModel.ofStatements overlappingHeaders = .ok model ∧
      model.tables.names = ["A", "B", "C"] ∧
      model.relationships =
        [⟨"A", "C", ["k", "x"], ["k", "x"], "many_to_one"⟩,
          ⟨"B", "C", ["y"], ["y"], "many_to_one"⟩] ∧
      (∃ pairs, Enumerates model.tables.entries pairs model.relationships) ∧
      ∀ entry ∈ (Semantic.model model).itemsAt "relationships",
        Semantic.Links (Semantic.model model) entry :=
  ⟨_, rfl, by decide +kernel, by cbv,
    relationships_of_ofStatements (show DataModel.ofStatements overlappingHeaders = _ from rfl)⟩

end QlikMigration
