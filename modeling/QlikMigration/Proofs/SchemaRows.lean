import Mathlib.Data.List.Chain
import QlikMigration.Proofs.DocumentShapes
import QlikMigration.Proofs.Relationships
import QlikMigration.Proofs.SchemaSession

/-!
# Rows of a schema file

The rows of a schema file are taken as the table library delivers them, and each
row says of a field to which table it belongs. A field may belong to several
tables; the last row wins. So what a schema says about a field can be told from
the rows of that field alone, in order: `lookupRun_of_load` does so for every
file that is accepted.

A row that repeats an earlier one is an error, but of the earlier rows of a field
only the last is remembered. `duplicateRun_of_lists` says which files are refused
for that reason: those in which two rows of a field that follow each other,
whatever rows of other fields stand between them, have the same table.
-/

namespace QlikMigration.Schema

/-! ## Cells and rows -/

/-- A cell that is present shows a text, without white space around it. A blank cell shows
none. -/
structure Shows (cell : DataCell) (text : String) : Prop where
  present : cell.missing = false
  trimmed : text = trimmed cell.text
  ne_empty : text ≠ ""

theorem cellText?_eq_some_iff {cell : DataCell} {text : String} :
    cellText? cell = some text ↔ Shows cell text := by
  rw [cellText?, Option.ite_none_left_eq_some, Bool.or_eq_true, not_or, Bool.not_eq_true,
    beq_iff_eq]
  constructor
  · rintro ⟨⟨hpresent, hblank⟩, htext⟩
    cases htext
    exact ⟨hpresent, rfl, hblank⟩
  · rintro ⟨hpresent, rfl, hblank⟩
    exact ⟨⟨hpresent, hblank⟩, rfl⟩

/-- An entry holds the number of a row and the texts that its cells show. -/
structure Holds (row : DataRow) (entry : Entry) : Prop where
  number : ∃ label, row.label = .ok label ∧ entry.number = (label.plus 2).text
  table : Shows (row.cell "table") entry.table
  field : Shows (row.cell "field") entry.field
  type : Shows (row.cell "type") entry.type

/-- A table has the required columns and no others, no cell of its rows is blank, and the
entries are its rows in order. -/
structure Lists (table : DataTable) (entries : List Entry) : Prop where
  columns : table.names.Perm requiredColumns
  rows : List.Forall₂ Holds table.rows entries

theorem entryOf_eq_ok_iff {row : SchemaRow} {entry : Entry} :
    entryOf row = .ok entry ↔
      row.number = entry.number ∧ row.table = some entry.table ∧ row.field = some entry.field ∧
        row.type = some entry.type := by
  obtain ⟨number, table, field, type⟩ := row
  obtain ⟨number', table', field', type'⟩ := entry
  cases table with
  | none => simp [entryOf]
  | some table =>
      cases field with
      | none => simp [entryOf]
      | some field => cases type <;> simp [entryOf]

theorem rowOf_eq_ok_iff {row : DataRow} {found : SchemaRow} :
    rowOf row = .ok found ↔
      ∃ label, row.label = .ok label ∧
        found = ⟨(label.plus 2).text, cellText? (row.cell "table"), cellText? (row.cell "field"),
          cellText? (row.cell "type")⟩ := by
  unfold rowOf
  cases row.label with
  | error cause => exact ⟨nofun, fun ⟨_, h, _⟩ => nomatch h⟩
  | ok label =>
      constructor
      · intro h
        exact ⟨label, rfl, (Except.ok.inj h).symm⟩
      · rintro ⟨_, hlabel, rfl⟩
        cases hlabel
        rfl

theorem holds_iff {row : DataRow} {entry : Entry} :
    (do entryOf (← rowOf row)) = .ok entry ↔ Holds row entry := by
  rw [bind_eq_ok_iff]
  constructor
  · rintro ⟨found, hrow, hentry⟩
    obtain ⟨label, hlabel, rfl⟩ := rowOf_eq_ok_iff.mp hrow
    obtain ⟨hnumber, htable, hfield, htype⟩ := entryOf_eq_ok_iff.mp hentry
    exact ⟨⟨label, hlabel, hnumber.symm⟩, cellText?_eq_some_iff.mp htable,
      cellText?_eq_some_iff.mp hfield, cellText?_eq_some_iff.mp htype⟩
  · rintro ⟨⟨label, hlabel, hnumber⟩, htable, hfield, htype⟩
    refine ⟨_, rowOf_eq_ok_iff.mpr ⟨label, hlabel, rfl⟩, entryOf_eq_ok_iff.mpr ?_⟩
    exact ⟨hnumber.symm, cellText?_eq_some_iff.mpr htable, cellText?_eq_some_iff.mpr hfield,
      cellText?_eq_some_iff.mpr htype⟩

theorem checkColumns_eq_ok_iff {names : List String} :
    checkColumns names = .ok () ↔ names.Perm requiredColumns := by
  have hmissing : (requiredColumns.filter fun name => !names.contains name).isEmpty = true ↔
      requiredColumns ⊆ names := by
    simp [List.isEmpty_iff, List.filter_eq_nil_iff, List.subset_def]
  have hnodup : requiredColumns.Nodup := by decide
  unfold checkColumns
  dsimp only
  cases hlacks : (requiredColumns.filter fun name => !names.contains name).isEmpty with
  | false =>
      refine iff_of_false (fun h => ?_) fun hperm => ?_
      · cases h
      · rw [hmissing.mpr hperm.symm.subset] at hlacks
        cases hlacks
  | true =>
      have hsub : requiredColumns.Subperm names :=
        List.subperm_of_subset hnodup (hmissing.mp hlacks)
      rw [if_neg (by decide)]
      split
      · next hlong =>
          refine iff_of_false (fun h => ?_) fun hperm => ?_
          · split at h <;> cases h
          · rw [hperm.length_eq] at hlong
            exact absurd hlong (by decide)
      · next hshort =>
          exact iff_of_true rfl (hsub.perm_of_length_le (Nat.not_lt.mp hshort)).symm

/-- What is read of a file are its rows in order. -/
theorem readEntries_eq_ok_iff {library : TableLibrary} {file : ByteArray}
    {entries : List Entry} :
    readEntries library file = .ok entries ↔
      ∃ table, library.read file = .ok table ∧ Lists table entries := by
  have htable : ∀ table, (library.read file).mapError SchemaError.library = .ok table ↔
      library.read file = .ok table := by
    intro table
    cases library.read file <;> simp [Except.mapError]
  rw [readEntries, bind_eq_ok_iff]
  refine exists_congr fun table => and_congr (htable table) ?_
  rw [bind_eq_ok_iff]
  constructor
  · rintro ⟨⟨⟩, hcolumns, hrows⟩
    exact ⟨checkColumns_eq_ok_iff.mp hcolumns,
      (Json.mapM_eq_ok_iff.mp hrows).imp fun _ _ => holds_iff.mp⟩
  · rintro ⟨hcolumns, hrows⟩
    exact ⟨(), checkColumns_eq_ok_iff.mpr hcolumns,
      Json.mapM_eq_ok_iff.mpr (hrows.imp fun _ _ => holds_iff.mpr)⟩

/-! ## The rows of a field -/

/-- The rows of a field, in order. -/
def rowsOf (field : String) (entries : List Entry) : List Entry :=
  entries.filter fun entry => entry.field == field

/-- The tables in the rows of a field, in order. -/
def tablesOf (field : String) (entries : List Entry) : List String :=
  (rowsOf field entries).map Entry.table

/-- No two rows of a field that follow each other have the same table. -/
def Steady (entries : List Entry) : Prop :=
  ∀ field, (tablesOf field entries).IsChain (· ≠ ·)

theorem rowsOf_append_self (entries : List Entry) (entry : Entry) :
    rowsOf entry.field (entries ++ [entry]) = rowsOf entry.field entries ++ [entry] := by
  simp [rowsOf]

theorem rowsOf_append_of_ne {field : String} {entry : Entry} (hne : field ≠ entry.field)
    (entries : List Entry) : rowsOf field (entries ++ [entry]) = rowsOf field entries := by
  simp [rowsOf, hne.symm]

theorem steady_nil : Steady [] :=
  fun _ => List.isChain_nil

theorem Steady.of_append {front back : List Entry} (h : Steady (front ++ back)) : Steady front := by
  intro field
  have hchain := h field
  rw [tablesOf, rowsOf, List.filter_append, List.map_append] at hchain
  exact hchain.left_of_append

/-- A row keeps rows steady if the last row of its field has another table. -/
theorem steady_append_singleton {entries : List Entry} {entry : Entry} :
    Steady (entries ++ [entry]) ↔
      Steady entries ∧
        ∀ last ∈ (rowsOf entry.field entries).getLast?, last.table ≠ entry.table := by
  have hself : tablesOf entry.field (entries ++ [entry]) =
      tablesOf entry.field entries ++ [entry.table] := by
    simp [tablesOf, rowsOf_append_self]
  constructor
  · intro h
    refine ⟨h.of_append, fun last hlast => ?_⟩
    have hchain := h entry.field
    rw [hself, List.isChain_append] at hchain
    refine hchain.2.2 last.table ?_ entry.table rfl
    rw [tablesOf, List.getLast?_map]
    exact Option.mem_map_of_mem Entry.table hlast
  · rintro ⟨hentries, hlast⟩ field
    by_cases hfield : field = entry.field
    · subst hfield
      rw [hself, List.isChain_append]
      refine ⟨hentries _, List.isChain_singleton _, ?_⟩
      rintro table htable _ ⟨⟩
      rw [tablesOf, List.getLast?_map] at htable
      obtain ⟨last, hmem, rfl⟩ := Option.map_eq_some_iff.mp htable
      exact hlast last hmem
    · rw [tablesOf, rowsOf_append_of_ne hfield]
      exact hentries field

/-- Rows that are not steady have a first row that repeats the one before it of its field. -/
theorem exists_repeated_of_not_steady {entries : List Entry} (h : ¬ Steady entries) :
    ∃ before again later first, entries = before ++ again :: later ∧ Steady before ∧
      (rowsOf again.field before).getLast? = some first ∧ first.table = again.table := by
  induction entries using List.reverseRecOn with
  | nil => exact absurd steady_nil h
  | append_singleton entries entry ih =>
      by_cases hentries : Steady entries
      · rw [steady_append_singleton, not_and] at h
        obtain ⟨first, hfirst⟩ := not_forall.mp (h hentries)
        obtain ⟨hlast, htable⟩ := Classical.not_imp.mp hfirst
        exact ⟨entries, entry, [], first, rfl, hentries, hlast, not_not.mp htable⟩
      · obtain ⟨before, again, later, first, rfl, hrest⟩ := ih hentries
        exact ⟨before, again, later ++ [entry], first, by simp, hrest⟩

/-- A pair of a table and a field comes twice exactly if some field has a table twice. -/
theorem nodup_pairs_iff {entries : List Entry} :
    (entries.map fun entry => (entry.table, entry.field)).Nodup ↔
      ∀ field, (tablesOf field entries).Nodup := by
  induction entries with
  | nil => exact iff_of_true List.nodup_nil fun _ => List.nodup_nil
  | cons entry entries ih =>
      have hself : tablesOf entry.field (entry :: entries) =
          entry.table :: tablesOf entry.field entries := by
        simp [tablesOf, rowsOf]
      have hmem :
          (entry.table, entry.field) ∈ entries.map (fun entry => (entry.table, entry.field)) ↔
            entry.table ∈ tablesOf entry.field entries := by
        simp [tablesOf, rowsOf, and_comm, and_assoc]
      rw [List.map_cons, List.nodup_cons, ih, hmem]
      constructor
      · rintro ⟨hnew, hothers⟩ field
        by_cases hfield : field = entry.field
        · subst hfield
          rw [hself]
          exact List.nodup_cons.mpr ⟨hnew, hothers _⟩
        · rw [tablesOf, rowsOf, List.filter_cons_of_neg (by simpa using Ne.symm hfield)]
          exact hothers field
      · intro h
        refine ⟨(List.nodup_cons.mp (hself ▸ h entry.field)).1, fun field => ?_⟩
        exact (h field).sublist (((List.sublist_cons_self entry entries).filter _).map _)

/-! ## Taking rows in -/

/-- What is remembered of each field is its last row. -/
def Remembers (seen : Seen) (entries : List Entry) : Prop :=
  ∀ field, seen.get? field =
    (rowsOf field entries).getLast?.map fun entry => (entry.table, entry.number)

theorem Remembers.put {seen : Seen} {entries : List Entry} (h : Remembers seen entries)
    (entry : Entry) :
    Remembers (seen.put entry.field (entry.table, entry.number)) (entries ++ [entry]) := by
  intro field
  by_cases hfield : field = entry.field
  · subst hfield
    rw [Catalog.get?_put_self, rowsOf_append_self, List.getLast?_concat]
    rfl
  · rw [Catalog.get?_put_of_ne _ _ hfield, rowsOf_append_of_ne hfield]
    exact h field

/-- A row whose field has another table in its last row is taken in. -/
theorem fill_cons_of_ne {schema : Schema} {seen : Seen} {front : List Entry} {entry : Entry}
    (hseen : Remembers seen front)
    (hlast : ∀ last ∈ (rowsOf entry.field front).getLast?, last.table ≠ entry.table)
    (rest : List Entry) :
    fill schema seen (entry :: rest) =
      fill (Catalog.put schema entry.field ⟨entry.table, entry.type⟩)
        (seen.put entry.field (entry.table, entry.number)) rest := by
  rw [fill, hseen]
  cases hrow : (rowsOf entry.field front).getLast? with
  | none => rfl
  | some last => exact if_neg (hlast last hrow)

/-- The schema that rows give: each field with the table and the type of its last row. -/
def ofRows (entries : List Entry) : Schema :=
  Catalog.ofList (entries.map fun entry => (entry.field, ⟨entry.table, entry.type⟩))

theorem ofRows_append_singleton (entries : List Entry) (entry : Entry) :
    ofRows (entries ++ [entry]) =
      Catalog.put (ofRows entries) entry.field ⟨entry.table, entry.type⟩ := by
  rw [ofRows, List.map_append]
  exact Catalog.ofList_append_singleton _ _

/-- Steady rows are all taken in. -/
theorem fill_of_steady {seen : Seen} {front rest : List Entry} (hseen : Remembers seen front)
    (h : Steady (front ++ rest)) :
    fill (ofRows front) seen rest = (.ok (), ofRows (front ++ rest)) := by
  induction rest generalizing seen front with
  | nil => rw [List.append_nil, fill]
  | cons entry rest ih =>
      rw [List.append_cons] at h ⊢
      rw [fill_cons_of_ne hseen (steady_append_singleton.mp h.of_append).2,
        ← ofRows_append_singleton]
      exact ih (hseen.put entry) h

/-- The first row that repeats the one before it of its field is refused. -/
theorem fill_of_repeated {seen : Seen} {front before : List Entry} {again first : Entry}
    (hseen : Remembers seen front) (hsteady : Steady (front ++ before))
    (hlast : (rowsOf again.field (front ++ before)).getLast? = some first)
    (htable : first.table = again.table) (schema : Schema) (later : List Entry) :
    (fill schema seen (before ++ again :: later)).1 =
      .error (.duplicateField again.field again.table first.number again.number) := by
  induction before generalizing seen front schema with
  | nil =>
      rw [List.append_nil] at hlast
      rw [List.nil_append, fill, hseen, hlast]
      simp [htable]
  | cons entry before ih =>
      rw [List.append_cons] at hsteady hlast
      rw [List.cons_append,
        fill_cons_of_ne hseen (steady_append_singleton.mp hsteady.of_append).2]
      exact ih (hseen.put entry) hsteady hlast _

theorem remembers_nil : Remembers ∅ [] :=
  fun _ => rfl

theorem loadEntries_of_steady {entries : List Entry} (h : Steady entries) :
    loadEntries entries = (.ok entries.length, ofRows entries) := by
  have hfill : fill ∅ ∅ entries = (.ok (), ofRows entries) := fill_of_steady remembers_nil h
  rw [loadEntries, hfill]
  rfl

theorem loadEntries_of_repeated {before : List Entry} {again first : Entry}
    (hsteady : Steady before) (hlast : (rowsOf again.field before).getLast? = some first)
    (htable : first.table = again.table) (later : List Entry) :
    (loadEntries (before ++ again :: later)).1 =
      .error (.duplicateField again.field again.table first.number again.number) := by
  have hfill := fill_of_repeated remembers_nil hsteady hlast htable ∅ later
  rw [loadEntries]
  exact congrArg (fun outcome => outcome.map fun _ => (before ++ again :: later).length) hfill

theorem load_of_lists {library : TableLibrary} {file : ByteArray} {table : DataTable}
    {entries : List Entry} (htable : library.read file = .ok table)
    (hlists : Lists table entries) : load library file = loadEntries entries := by
  rw [load, readEntries_eq_ok_iff.mpr ⟨table, htable, hlists⟩]

/-- The rows of a table are labelled by their positions, from zero on. -/
def LabelledInOrder (table : DataTable) : Prop :=
  ∀ (i : Nat) row, table.rows[i]? = some row → row.label = .ok (.whole i)

/-- Rows labelled by their positions have the numbers of their lines, of which the header is
the first. -/
theorem Lists.numbers {table : DataTable} {entries : List Entry} (h : Lists table entries)
    (horder : LabelledInOrder table) {i : Nat} {entry : Entry} (hentry : entries[i]? = some entry) :
    entry.number = toString (i + 2) := by
  obtain ⟨hlt, rfl⟩ := List.getElem?_eq_some_iff.mp hentry
  have hrow : i < table.rows.length := h.rows.length_eq ▸ hlt
  obtain ⟨label, hlabel, hnumber⟩ := (List.forall₂_iff_get.mp h.rows).2 i hrow hlt |>.number
  have hwhole := horder i _ (List.getElem?_eq_getElem hrow)
  obtain rfl := Except.ok.inj (hlabel.symm.trans hwhole)
  exact hnumber

/-! ## Repeated rows -/

/-- A file is refused for a repeated row. -/
def Refused (result : Except SchemaError Nat) : Prop :=
  ∃ field table first row, result = .error (.duplicateField field table first row)

/-- How rows fare among which some may be repeated. -/
structure DuplicateRun (table : DataTable) (entries : List Entry)
    (result : Except SchemaError Nat) : Prop where
  /-- They are refused exactly if two rows of a field that follow each other have the same
  table. -/
  refused_iff : Refused result ↔ ∃ field, ¬ (tablesOf field entries).IsChain (· ≠ ·)
  /-- The first such row is reported, together with the one before it. -/
  reported : ∀ before again later first, entries = before ++ again :: later → Steady before →
    (rowsOf again.field before).getLast? = some first → first.table = again.table →
      result = .error (.duplicateField again.field again.table first.number again.number)
  /-- Rows are reported by their lines, if the library labels them by their positions. -/
  numbers : LabelledInOrder table → ∀ (i : Nat) entry, entries[i]? = some entry →
    entry.number = toString (i + 2)
  accepted : Steady entries → result = .ok entries.length
  /-- That they are refused exactly if a table and a field come together in two rows holds
  exactly if no field comes back to a table after another one only. -/
  complete_iff :
    (Refused result ↔ ¬ (entries.map fun entry => (entry.table, entry.field)).Nodup) ↔
      (Steady entries → ∀ field, (tablesOf field entries).Nodup)

theorem steady_of_nodup {entries : List Entry} (h : ∀ field, (tablesOf field entries).Nodup) :
    Steady entries :=
  fun field => (h field).isChain

/-- Of the earlier rows of a field only the last one is compared, so a table and a field that
come together again are noticed only where no other table of the field stands between. -/
theorem duplicateRun_of_lists {library : TableLibrary} {file : ByteArray} {table : DataTable}
    {entries : List Entry} (htable : library.read file = .ok table)
    (hlists : Lists table entries) : DuplicateRun table entries (load library file).1 := by
  rw [load_of_lists htable hlists]
  have haccepted : Steady entries → (loadEntries entries).1 = .ok entries.length :=
    fun h => congrArg Prod.fst (loadEntries_of_steady h)
  have hreported : ∀ before again later first, entries = before ++ again :: later →
      Steady before → (rowsOf again.field before).getLast? = some first →
      first.table = again.table → (loadEntries entries).1 =
        .error (.duplicateField again.field again.table first.number again.number) := by
    rintro before again later first rfl hsteady hlast htable
    exact loadEntries_of_repeated hsteady hlast htable later
  have hrefused : Refused (loadEntries entries).1 ↔ ¬ Steady entries := by
    constructor
    · rintro ⟨field, table, first, row, herror⟩ hsteady
      rw [haccepted hsteady] at herror
      cases herror
    · intro h
      obtain ⟨before, again, later, first, hcut, hsteady, hlast, htable⟩ :=
        exists_repeated_of_not_steady h
      exact ⟨_, _, _, _, hreported before again later first hcut hsteady hlast htable⟩
  refine ⟨hrefused.trans not_forall, hreported, fun horder _ _ => hlists.numbers horder,
    haccepted, ?_⟩
  rw [hrefused, nodup_pairs_iff, not_iff_not]
  exact ⟨fun h => h.mp, fun h => ⟨h, steady_of_nodup⟩⟩

/-- A file in which a field of one table comes again after another table. -/
def returningFile : ByteArray :=
  "table,field,type\nOrders,Id,number\nItems,Id,number\nOrders,Id,number\n".toUTF8

/-- The rows of that file. -/
def returningRows : List Entry :=
  [⟨"2", "Orders", "Id", "number"⟩, ⟨"3", "Items", "Id", "number"⟩,
    ⟨"4", "Orders", "Id", "number"⟩]

/-- The third row repeats the first one, and the file is accepted. -/
theorem duplicateRun_of_returningFile :
    ∃ table, Csv.library.read returningFile = .ok table ∧ Lists table returningRows ∧
      DuplicateRun table returningRows (load Csv.library returningFile).1 ∧
      ¬ Refused (load Csv.library returningFile).1 ∧
      ¬ (returningRows.map fun entry => (entry.table, entry.field)).Nodup := by
  have hread : readEntries Csv.library returningFile = .ok returningRows := by decide +kernel
  obtain ⟨table, htable, hlists⟩ := readEntries_eq_ok_iff.mp hread
  have hrun := duplicateRun_of_lists htable hlists
  refine ⟨table, htable, hlists, hrun, ?_, by decide⟩
  have hload : (load Csv.library returningFile).1 = .ok 3 := by decide +kernel
  rintro ⟨field, table, first, row, herror⟩
  rw [hload] at herror
  cases herror

/-! ## Looking fields up -/

theorem tableOf?_ofRows (entries : List Entry) (field : String) :
    tableOf? (ofRows entries) field = (rowsOf field entries).getLast?.map Entry.table := by
  have hrows : (entries.map fun entry => (entry.field, FieldEntry.mk entry.table entry.type)).filter
        (fun entry => entry.1 == field) =
      (rowsOf field entries).map fun entry => (entry.field, ⟨entry.table, entry.type⟩) := by
    rw [List.filter_map]
    rfl
  rw [tableOf?, ofRows, Catalog.get?_ofList, hrows, List.getLast?_map]
  cases (rowsOf field entries).getLast? <;> rfl

/-- The tables of a schema are those of its fields. -/
theorem mem_tables_iff {schema : Schema} {table : String} :
    table ∈ tables schema ↔ ∃ field, tableOf? schema field = some table := by
  rw [tables, mem_sortedNames, List.mem_map]
  constructor
  · rintro ⟨⟨field, entry⟩, hmem, rfl⟩
    exact ⟨field, by rw [tableOf?, Catalog.get?_eq_some_iff.mpr hmem]; rfl⟩
  · rintro ⟨field, hfield⟩
    obtain ⟨entry, hentry, rfl⟩ := Option.map_eq_some_iff.mp hfield
    exact ⟨(field, entry), Catalog.get?_eq_some_iff.mp hentry, rfl⟩

/-- A file that is accepted has the required columns, and its rows are all taken in. -/
theorem exists_lists_of_load {library : TableLibrary} {file : ByteArray} {count : Nat}
    {schema : Schema} (h : load library file = (.ok count, schema)) :
    ∃ table entries, library.read file = .ok table ∧ Lists table entries ∧
      count = entries.length ∧ schema = ofRows entries := by
  cases hread : readEntries library file with
  | error cause =>
      rw [load, hread] at h
      cases h
  | ok entries =>
      obtain ⟨table, htable, hlists⟩ := readEntries_eq_ok_iff.mp hread
      rw [load_of_lists htable hlists] at h
      have hsteady : Steady entries := by
        by_contra hsteady
        obtain ⟨before, again, later, first, rfl, hbefore, hlast, hsame⟩ :=
          exists_repeated_of_not_steady hsteady
        have herror := loadEntries_of_repeated hbefore hlast hsame later
        rw [h] at herror
        cases herror
      rw [loadEntries_of_steady hsteady] at h
      cases h
      exact ⟨table, entries, htable, hlists, rfl, rfl⟩

/-- No field of a schema that was loaded has a table without a name. -/
theorem tableOf?_ne_empty_of_load {library : TableLibrary} {file : ByteArray} {count : Nat}
    {schema : Schema} (h : load library file = (.ok count, schema)) (field : String) :
    tableOf? schema field ≠ some "" := by
  obtain ⟨table, entries, -, hlists, -, rfl⟩ := exists_lists_of_load h
  rw [tableOf?_ofRows]
  intro hempty
  obtain ⟨entry, hentry, hname⟩ := Option.map_eq_some_iff.mp hempty
  have hmem : entry ∈ entries := List.mem_of_mem_filter (List.mem_of_getLast? hentry)
  obtain ⟨row, -, hholds⟩ := exists_mem_of_forall₂ hlists.rows hmem
  exact hholds.table.ne_empty hname

/-- What a schema says after a file with given rows was loaded. -/
structure LookupRun (library : TableLibrary) (file : ByteArray) (table : DataTable)
    (entries : List Entry) (count : Nat) (schema : Schema) : Prop where
  count : count = table.rows.length
  /-- A field has the table of its last row, and none if it has no row. -/
  tableOf : ∀ field, tableOf? schema field = (rowsOf field entries).getLast?.map Entry.table
  sorted : (tables schema).Pairwise (· < ·)
  mem_tables : ∀ table, table ∈ tables schema ↔ ∃ field, tableOf? schema field = some table
  /-- In a session the schema is there after the file, whatever was there before. -/
  session : ∀ (services : Services) (workingDirectory : String) (session : Page.Session)
    (directory : Directory) (entered : Page.Entries),
    Page.received? directory entered = some file →
      (Page.run library services workingDirectory session directory entered).session.schema =
        schema

/-- After a file that is accepted, each field has the table of its last row, and the tables
that fields have are listed in order, whatever schema was there before. -/
theorem lookupRun_of_load {library : TableLibrary} {file : ByteArray} {count : Nat}
    {schema : Schema} (h : load library file = (.ok count, schema)) :
    ∃ table entries, library.read file = .ok table ∧ Lists table entries ∧
      LookupRun library file table entries count schema := by
  obtain ⟨table, entries, htable, hlists, hcount, rfl⟩ := exists_lists_of_load h
  refine ⟨table, entries, htable, hlists, ?_, tableOf?_ofRows entries,
    pairwise_lt_sortedNames _, fun _ => mem_tables_iff, ?_⟩
  · rw [hcount, hlists.rows.length_eq]
  · intro services workingDirectory session directory entered hreceived
    have htakes := Page.takes_run library services workingDirectory session directory entered
    rw [htakes.schema, hreceived]
    exact congrArg Prod.snd h

/-- A file in which a field comes in two tables. -/
def sharedFieldFile : ByteArray :=
  "table,field,type\nOrders,Id,number\n Items , Id,number\nOrders,Total,number\n".toUTF8

/-- The schema of that file. -/
def sharedFieldSchema : Schema :=
  .ofList [("Id", ⟨"Items", "number"⟩), ("Total", ⟨"Orders", "number"⟩)]

/-- The field belongs to the table of its later row. -/
theorem lookupRun_of_sharedFieldFile :
    load Csv.library sharedFieldFile = (.ok 3, sharedFieldSchema) ∧
      (∃ table entries, Csv.library.read sharedFieldFile = .ok table ∧ Lists table entries ∧
        LookupRun Csv.library sharedFieldFile table entries 3 sharedFieldSchema) ∧
      tableOf? sharedFieldSchema "Id" = some "Items" ∧
      tableOf? sharedFieldSchema "Price" = none := by
  have hload : load Csv.library sharedFieldFile = (.ok 3, sharedFieldSchema) := by
    decide +kernel
  exact ⟨hload, lookupRun_of_load hload, by decide, by decide⟩

end QlikMigration.Schema
