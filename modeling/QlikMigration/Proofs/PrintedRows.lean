import QlikMigration.Proofs.InlineRows
import QlikMigration.Proofs.References

/-!
# Inline rows as they are printed

Rows are printed one a line between brackets, their cells with a comma and a
space between them. Reading trims three times: the text between the brackets,
each line of it, and each cell of a line. So a printed line does not come back
as it was if its last cell is empty, since the space before that cell is gone,
and no two of the three can be looked at apart. What stays of a line is its
*core*, which ends in the comma then, and the cells are still found in it.

`readRows_printRows` says that reading gives back the rows that were printed.
-/

namespace QlikMigration.Script

open QlikMigration.Text

/-! ## Printing -/

/-- What stands between two cells of a printed row. -/
def cellSeparator : List Char :=
  [',', ' ']

/-- The line of a row. -/
def printRow (row : List String) : List Char :=
  cellSeparator.intercalate (row.map String.toList)

/-- Rows in brackets, one a line. -/
def printRows (rows : List (List String)) : List Char :=
  "INLINE [".toList ++ (['\n'].intercalate (rows.map printRow) ++ [']'])

/-- Whether a text can stand in a cell: it has no white space at its ends and none of the
characters that end a cell, a row or all rows. -/
def isCellText (cell : String) : Bool :=
  isTrimmed cell.toList && cell.toList.all fun c => !([',', ']', '\n'].contains c)

/-- Whether a row can be told from its line: it has two cells or more, or only one and that is
a word. -/
def isPrintableRow (row : List String) : Bool :=
  row.all isCellText &&
    (2 ≤ row.length || (row.length == 1 && row.all fun cell =>
      cell != "" && cell.toList.all fun c => !isBlank c))

/-! ## Cells of a line -/

section Cells

variable {cell : String} {cells : List String}

theorem flush_of_isCellText (h : isCellText cell = true) : Flush cell.toList :=
  (isTrimmed_iff.mp (Bool.and_eq_true_iff.mp h).1).1

theorem last_of_isCellText (h : isCellText cell = true) :
    ∀ c ∈ cell.toList.getLast?, isBlank c = false :=
  (isTrimmed_iff.mp (Bool.and_eq_true_iff.mp h).1).2

theorem not_mem_of_isCellText (h : isCellText cell = true) {c : Char}
    (hc : c ∈ [',', ']', '\n']) : c ∉ cell.toList := by
  intro hmem
  have hfree := List.all_eq_true.mp (Bool.and_eq_true_iff.mp h).2 c hmem
  rw [List.contains_iff_mem.mpr hc] at hfree
  cases hfree

theorem trim_of_isCellText (h : isCellText cell = true) : trim cell.toList = cell.toList :=
  trimOf_eq_iff.mpr ⟨⟨[], [], by simp, List.forall_mem_nil _, List.forall_mem_nil _⟩,
    flush_of_isCellText h, last_of_isCellText h⟩

/-- What no cell has is not in their line either, unless it separates them. -/
theorem not_mem_printRow (h : ∀ cell ∈ cells, isCellText cell = true) {c : Char}
    (hc : c ∈ [']', '\n']) : c ∉ printRow cells := by
  intro hmem
  rcases mem_intercalate hmem with hseparator | ⟨piece, hpiece, hmem⟩
  · rw [List.mem_cons, List.mem_singleton] at hc
    rcases hc with rfl | rfl
    · exact absurd hseparator (by decide)
    · exact absurd hseparator (by decide)
  · obtain ⟨cell, hcell, rfl⟩ := List.mem_map.mp hpiece
    exact not_mem_of_isCellText (h cell hcell) (List.mem_cons_of_mem _ hc) hmem

theorem printRow_singleton (cell : String) : printRow [cell] = cell.toList :=
  List.intercalate_singleton

theorem printRow_cons_cons (cell next : String) (cells : List String) :
    printRow (cell :: next :: cells) =
      cell.toList ++ ',' :: ' ' :: printRow (next :: cells) := by
  simp [printRow, cellSeparator]

/-- A line does not begin with white space, since a comma follows an empty cell. -/
theorem flush_printRow_append (hne : cells ≠ []) (h : ∀ cell ∈ cells, isCellText cell = true)
    (rest : List Char) : Flush (printRow cells ++ ',' :: rest) := by
  obtain ⟨cell, cells, rfl⟩ := List.exists_cons_of_ne_nil hne
  have hcell : ∀ tail, Flush (cell.toList ++ ',' :: tail) := by
    intro tail
    by_cases hempty : cell.toList = []
    · rw [hempty]
      intro c hc
      obtain rfl : ',' = c := by simpa using hc
      decide
    · exact (flush_of_isCellText (h cell List.mem_cons_self)).append hempty _
  cases cells with
  | nil =>
      rw [printRow_singleton]
      exact hcell rest
  | cons next cells =>
      rw [printRow_cons_cons, List.append_assoc]
      exact hcell _

/-- White space before a text goes to its first piece, where trimming takes it away. -/
theorem map_trim_splitOn_cons {delimiter c : Char} (hc : isBlank c = true) (hne : c ≠ delimiter)
    (cs : List Char) :
    (List.splitOn delimiter (c :: cs)).map trim = (List.splitOn delimiter cs).map trim := by
  have hdelimiter : (c == delimiter) = false := by simpa using hne
  rw [List.splitOn_cons_eq_if_modifyHead, hdelimiter, if_neg Bool.false_ne_true]
  cases hsplit : List.splitOn delimiter cs with
  | nil => exact absurd hsplit (List.splitOn_ne_nil _ _)
  | cons piece pieces =>
      rw [List.modifyHead_cons, List.map_cons, List.map_cons, trim_cons_of_isBlank hc]

/-- The cells of a line are found between its commas. -/
theorem map_trim_splitOn_printRow (hne : cells ≠ [])
    (h : ∀ cell ∈ cells, isCellText cell = true) :
    (List.splitOn ',' (printRow cells)).map trim = cells.map String.toList := by
  induction cells with
  | nil => exact absurd rfl hne
  | cons cell cells ih =>
      rw [List.forall_mem_cons] at h
      have hcomma : ',' ∉ cell.toList := not_mem_of_isCellText h.1 (by decide)
      cases cells with
      | nil =>
          rw [printRow_singleton, List.splitOn_eq_singleton hcomma, List.map_singleton,
            trim_of_isCellText h.1, List.map_singleton]
      | cons next cells =>
          rw [printRow_cons_cons, List.splitOn_append_cons_self_of_not_mem hcomma, List.map_cons,
            trim_of_isCellText h.1, map_trim_splitOn_cons (by decide) (by decide),
            ih (List.cons_ne_nil _ _) h.2]
          rfl

end Cells

/-! ## Lines and their cores -/

/-- A line as it is printed, with what stays of it when it is trimmed: the row is read from the
core alone. -/
structure CoreOf (row : List String) (core : List Char) : Prop where
  line : ∃ gap, Blanks gap ∧ printRow row = core ++ gap
  solid : Solid core
  read : readRow core = row

/-- A row of a single word is its own line. -/
theorem coreOf_word {cell : String} (hne : cell ≠ "") (hcell : isCellText cell = true)
    (hword : ∀ c ∈ cell.toList, isBlank c = false) : CoreOf [cell] cell.toList where
  line := ⟨[], Blanks.nil, by rw [printRow_singleton, List.append_nil]⟩
  solid := solid_of_unblank (mt String.toList_eq_nil_iff.mp hne) hword
  read := by
    have hcomma : ¬ cell.toList.contains ',' = true :=
      mt List.contains_iff_mem.mp (not_mem_of_isCellText hcell (by decide))
    have hkept : (!cell.toList.isEmpty) = true := by
      simpa using mt String.toList_eq_nil_iff.mp hne
    rw [readRow, if_neg hcomma, words, List.splitOnP_eq_singleton hword, List.filter_cons,
      if_pos hkept]
    simp

/-- A row of two cells or more is read from its line up to the last comma and what is left of
the last cell. -/
theorem readRow_append {init : List String} {last : String} (hne : init ≠ [])
    (hinit : ∀ cell ∈ init, isCellText cell = true) {tail : List Char} (hcomma : ',' ∉ tail)
    (htail : trim tail = last.toList) :
    readRow (printRow init ++ ',' :: tail) = init ++ [last] := by
  have hcontains : (printRow init ++ ',' :: tail).contains ',' = true := by simp
  have hcells : (List.splitOn ',' (printRow init ++ ',' :: tail)).map trim =
      (init ++ [last]).map String.toList := by
    rw [List.splitOn_append_cons_self, List.map_append, map_trim_splitOn_printRow hne hinit,
      List.splitOn_eq_singleton hcomma, List.map_singleton, htail, List.map_append]
    rfl
  have hnames : readNames (printRow init ++ ',' :: tail) =
      ((List.splitOn ',' (printRow init ++ ',' :: tail)).map trim).map String.ofList := by
    rw [List.map_map]
    rfl
  rw [readRow, if_pos hcontains, hnames, hcells, List.map_map]
  simp

/-- The core of a row of two cells or more ends in its last comma if the last cell is empty. -/
theorem exists_coreOf_append {init : List String} {last : String} (hne : init ≠ [])
    (hinit : ∀ cell ∈ init, isCellText cell = true) (hlast : isCellText last = true) :
    ∃ core, CoreOf (init ++ [last]) core := by
  have hprint : printRow (init ++ [last]) = printRow init ++ ',' :: ' ' :: last.toList := by
    have hpieces : init.map String.toList ≠ [] := mt List.map_eq_nil_iff.mp hne
    rw [printRow, List.map_append, List.map_singleton, intercalate_append_singleton _ hpieces]
    rfl
  have hfront : Flush (printRow init ++ [',']) := flush_printRow_append hne hinit []
  have hline : '\n' ∉ printRow init ++ [','] := by
    simp [not_mem_printRow hinit (c := '\n') (by decide)]
  by_cases hempty : last.toList = []
  · refine ⟨printRow init ++ [','], ⟨[' '], Blanks.singleton (by decide), ?_⟩, ?_, ?_⟩
    · rw [hprint, hempty, List.append_assoc]
      rfl
    · exact ⟨by simp, hfront, by simp; decide, hline⟩
    · exact readRow_append hne hinit List.not_mem_nil hempty.symm
  · have hsolid : Solid last.toList :=
      ⟨hempty, flush_of_isCellText hlast, last_of_isCellText hlast,
        not_mem_of_isCellText hlast (by decide)⟩
    refine ⟨printRow init ++ ',' :: ' ' :: last.toList, ⟨[], Blanks.nil, ?_⟩, ?_, ?_⟩
    · rw [hprint, List.append_nil]
    · have hspaced := hsolid.append_left (hfront.append (by simp) [' ']) (by simpa using hline)
      simpa using hspaced
    · refine readRow_append hne hinit ?_ ?_
      · simp [not_mem_of_isCellText hlast (c := ',') (by decide)]
      · rw [trim_cons_of_isBlank (by decide), trim_of_isCellText hlast]

theorem exists_coreOf {row : List String} (h : isPrintableRow row = true) :
    ∃ core, CoreOf row core := by
  rw [isPrintableRow, Bool.and_eq_true, List.all_eq_true] at h
  obtain ⟨hcells, hlength⟩ := h
  obtain rfl | ⟨init, last, rfl⟩ := row.eq_nil_or_concat
  · cases hlength
  rw [List.concat_eq_append] at hcells hlength ⊢
  cases init with
  | nil =>
      have hword : last ≠ "" ∧ ∀ c ∈ last.toList, isBlank c = false := by simpa using hlength
      exact ⟨_, coreOf_word hword.1 (hcells last (by simp)) hword.2⟩
  | cons first init =>
      exact exists_coreOf_append (List.cons_ne_nil _ _)
        (fun cell hcell => hcells cell (List.mem_append_left _ hcell)) (hcells last (by simp))

/-! ## Lines between brackets -/

/-- Printed rows with what stays of them when they are trimmed as one text: the rows are read
from this block alone. -/
structure BlockOf (table : List (List String)) (block : List Char) : Prop where
  text : ∃ gap, Blanks gap ∧ ['\n'].intercalate (table.map printRow) = block ++ gap
  ne_nil : block ≠ []
  flush : Flush block
  last : ∀ c ∈ block.getLast?, isBlank c = false
  read : (rows block).map readRow = table

section Blocks

variable {row : List String} {core block : List Char} {table : List (List String)}

theorem CoreOf.blockOf_singleton (h : CoreOf row core) : BlockOf [row] core where
  text := by rw [List.map_singleton, List.intercalate_singleton]; exact h.line
  ne_nil := h.solid.ne_nil
  flush := h.solid.flush
  last := h.solid.last
  read := by
    have hrows := h.solid.rows_append Blanks.nil (.inr rfl)
    rw [List.append_nil, List.append_nil] at hrows
    rw [hrows, rows_nil, List.map_singleton, h.read]

/-- White space at the end of a line that is not the last one stays in the block. -/
theorem BlockOf.exists_cons (hblock : BlockOf table block) (hne : table ≠ [])
    (hrow : CoreOf row core) : ∃ block, BlockOf (row :: table) block := by
  obtain ⟨gap, hgap, hline⟩ := hrow.line
  obtain ⟨trail, htrail, htext⟩ := hblock.text
  have hbreak : Blanks (gap ++ ['\n']) := hgap.append (Blanks.singleton (by decide))
  refine ⟨core ++ ((gap ++ ['\n']) ++ block), ⟨trail, htrail, ?_⟩, ?_, ?_, ?_, ?_⟩
  · have hlines : table.map printRow ≠ [] := mt List.map_eq_nil_iff.mp hne
    rw [List.map_cons, List.intercalate_cons_of_ne_nil hlines, htext, hline]
    simp
  · simp
  · exact hrow.solid.flush.append hrow.solid.ne_nil _
  · rw [← List.append_assoc, List.getLast?_append_of_ne_nil _ hblock.ne_nil]
    exact hblock.last
  · rw [hrow.solid.rows_append hbreak (.inl (by simp)), List.map_cons, hrow.read, hblock.read]

theorem exists_blockOf (hne : table ≠ []) (h : ∀ row ∈ table, isPrintableRow row = true) :
    ∃ block, BlockOf table block := by
  induction table with
  | nil => exact absurd rfl hne
  | cons row table ih =>
      rw [List.forall_mem_cons] at h
      obtain ⟨core, hcore⟩ := exists_coreOf h.1
      cases table with
      | nil => exact ⟨core, hcore.blockOf_singleton⟩
      | cons next table =>
          obtain ⟨block, hblock⟩ := ih (List.cons_ne_nil _ _) h.2
          exact hblock.exists_cons (List.cons_ne_nil _ _) hcore

end Blocks

/-- The text between the brackets reaches to the closing one, since no row has any. -/
theorem inlineText?_printRows {table : List (List String)}
    (h : ∀ row ∈ table, isPrintableRow row = true) :
    inlineText? (printRows table) = some (['\n'].intercalate (table.map printRow)) := by
  have hbracket : ']' ∉ ['\n'].intercalate (table.map printRow) := by
    intro hmem
    rcases mem_intercalate hmem with hend | ⟨line, hline, hmem⟩
    · exact absurd hend (by decide)
    · obtain ⟨row, hrow, rfl⟩ := List.mem_map.mp hline
      have hcells := (Bool.and_eq_true_iff.mp (h row hrow)).1
      exact not_mem_printRow (List.all_eq_true.mp hcells) (by decide) hmem
  have hgo : ∀ part, part ≠ [] → part <:+ ['\n'].intercalate (table.map printRow) →
      atBracketEnd (part ++ [']']) = false := by
    intro part hne hpart
    obtain ⟨c, part, rfl⟩ := List.exists_cons_of_ne_nil hne
    have hc : ']' ≠ c := fun heq => hbracket (hpart.subset (heq ▸ List.mem_cons_self))
    simp [atBracketEnd, List.isPrefixOf, hc]
  have htext : upTo? anyChar atBracketEnd (['\n'].intercalate (table.map printRow) ++ [']']) =
      some (['\n'].intercalate (table.map printRow)) :=
    upTo?_append (fun _ _ => rfl) hgo rfl
  have hhit : (['['].isPrefixOf? (skipBlanks
      ([' ', '['] ++ (['\n'].intercalate (table.map printRow) ++ [']'])))).bind
        (upTo? anyChar atBracketEnd) = some (['\n'].intercalate (table.map printRow)) := htext
  have hstart : Seals Keyword.inlineRows.letters [] := seals_nil
  exact search?_after?_append hstart hhit

/-- Reading gives back the rows that were printed. -/
theorem readRows_printRows (table : List (List String))
    (h : ∀ row ∈ table, isPrintableRow row = true) : readRows (printRows table) = table := by
  rw [readRows, inlineText?_printRows h]
  cases table with
  | nil => rfl
  | cons row table =>
      obtain ⟨block, hblock⟩ := exists_blockOf (List.cons_ne_nil row table) h
      obtain ⟨gap, hgap, htext⟩ := hblock.text
      have htrim : trim (['\n'].intercalate ((row :: table).map printRow)) = block :=
        trimOf_eq_iff.mpr ⟨⟨[], gap, htext, List.forall_mem_nil _, hgap⟩, hblock.flush, hblock.last⟩
      show (rows (trim _)).map readRow = row :: table
      rw [htrim, hblock.read]

/-- Rows with empty cells at all borders, white space inside of a cell and a row of one word. -/
def borderRows : List (List String) :=
  [["", "North\tWest"], ["total"], ["a b", "", "[c"], ["", ""]]

theorem readRows_borderRows :
    printRows borderRows =
        "INLINE [, North\tWest\ntotal\na b, , [c\n, ]".toList ∧
      (∀ row ∈ borderRows, isPrintableRow row = true) ∧
      readRows (printRows borderRows) = borderRows := by
  have hrows : ∀ row ∈ borderRows, isPrintableRow row = true := by decide
  exact ⟨by decide, hrows, readRows_printRows borderRows hrows⟩

end QlikMigration.Script
