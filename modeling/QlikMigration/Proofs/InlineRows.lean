import QlikMigration.Proofs.LoadReading
import QlikMigration.Proofs.Runs

/-!
# What becomes of inline rows

The rows of an inline load stand on lines of their own. Reading a script first
joins the lines of a statement with spaces, and the rows are cut at line ends
only afterwards, when there are none left. So all rows are read as one: the last
cell of each row runs together with the first cell of the next, with a space
between the two. Rows are kept only if there is just one.
-/

namespace QlikMigration.Script

open QlikMigration.Text

/-! ## Words of their own -/

/-- A keyword that is a word in neither of two texts is none in the texts put together, if a
character stands between them that is no part of a word. -/
theorem hasWord_append_cons_eq_false {keyword : Keyword} {front back : List Char} {c : Char}
    (hc : isWord c = false) (hfront : hasWord keyword front = false)
    (hback : hasWord keyword back = false) : hasWord keyword (front ++ c :: back) = false := by
  rw [← Bool.not_eq_true, hasWord_iff]
  rintro ⟨start, part, tail, hcut, hstart, hpart, htail⟩
  rcases List.append_eq_append_iff.mp hcut with ⟨gap, rfl, hgap⟩ | ⟨rest, rfl, rfl⟩
  · -- The keyword begins behind the first text, so it is a word of the second.
    cases gap with
    | nil =>
        rw [List.nil_append] at hgap
        rw [← hgap, keyword.capital.afterLetters?_cons_of_not_isWord hc] at hpart
        cases hpart
    | cons d gap =>
        cases hgap
        have hword : hasWord keyword (gap ++ part) = true := by
          refine hasWord_iff.mpr ⟨gap, part, tail, rfl, ?_, hpart, htail⟩
          cases gap with
          | nil => exact startsWordAfter_nil
          | cons e gap =>
              rw [StartsWordAfter, List.getLast?_append_of_ne_nil front (List.cons_ne_nil _ _),
                List.getLast?_cons_cons] at hstart
              exact hstart
        exact Bool.false_ne_true (hback.symm.trans hword)
  · -- It begins in the first text and cannot reach beyond the character after it.
    cases hrest : afterLetters? keyword.letters rest with
    | none =>
        rw [Capital.afterLetters?_append_of_not_isWord keyword.capital.upper hrest hc] at hpart
        cases hpart
    | some found =>
        rw [afterLetters?_append hrest] at hpart
        cases hpart
        have hword : hasWord keyword (start ++ rest) = true := by
          refine hasWord_iff.mpr ⟨start, rest, found, rfl, hstart, hrest, ?_⟩
          cases found with
          | nil => rfl
          | cons e found => exact htail
        exact Bool.false_ne_true (hfront.symm.trans hword)

theorem wordless_of_all {cs : List Char} (h : cs.all (fun c => !isWord c) = true) : Wordless cs :=
  fun c hc => by simpa using List.all_eq_true.mp h c hc

/-- No keyword is a word of a text without any part of a word. -/
theorem hasWord_of_wordless (keyword : Keyword) {cs : List Char} (hcs : Wordless cs) :
    hasWord keyword cs = false :=
  hasWord_eq_false ((keyword.capital.seals_of_wordless hcs).lacks keyword.capital)

theorem hasWord_nil (keyword : Keyword) : hasWord keyword [] = false :=
  hasWord_of_wordless keyword (List.forall_mem_nil _)

/-- A keyword that is a word in neither of two texts is none in the texts with a separator
between them. -/
theorem hasWord_append_eq_false {keyword : Keyword} {front separator back : List Char}
    (hfront : hasWord keyword front = false) (hne : separator ≠ [])
    (hseparator : Wordless separator) (hback : hasWord keyword back = false) :
    hasWord keyword (front ++ (separator ++ back)) = false := by
  induction separator generalizing front with
  | nil => exact absurd rfl hne
  | cons c separator ih =>
      refine hasWord_append_cons_eq_false (hseparator c List.mem_cons_self) hfront ?_
      cases separator with
      | nil => exact hback
      | cons d separator =>
          exact ih (hasWord_nil keyword) (List.cons_ne_nil d separator)
            fun e he => hseparator e (List.mem_cons_of_mem c he)

/-- A keyword that is no word of a text is not found where it has to be one. -/
theorem searchWord?_of_hasWord {α : Type} {keyword : Keyword} {next? : List Char → Option α}
    (hnext : ∀ rest hit, next? rest = some hit → startsWord rest = false) {line : List Char}
    (h : hasWord keyword line = false) : searchWord? keyword next? line = none := by
  by_contra hsome
  rw [hasWord_of_searchWord? hnext (Option.isSome_iff_ne_none.mpr hsome)] at h
  cases h

/-- A mapping load has the word `MAPPING`. -/
theorem hasWord_of_isMappingLoad {line : List Char} (h : isMappingLoad line = true) :
    hasWord .mapping line = true := by
  rw [isMappingLoad, findFirst?, isSome_findFirstAfter?_iff] at h
  obtain ⟨front, part, rfl, hpart⟩ := h
  rw [Option.or_none] at hpart
  split at hpart
  · next hstart =>
    obtain ⟨tail, htail⟩ := Option.isSome_iff_exists.mp hpart
    obtain ⟨word, gap, back, hword, hgap, hne, -, hcut⟩ :=
      afterPair?_eq_some_iff.mp (Option.filter_eq_some_iff.mp htail).1
    refine hasWord_iff.mpr ⟨front, part, gap ++ (back ++ tail), rfl, hstart, ?_, ?_⟩
    · exact afterLetters?_eq_some_iff.mpr ⟨word, hword, hcut⟩
    · exact (Separator.writes_gap_iff.mpr ⟨hgap, hne⟩).startsWord_append _
  · cases hpart

/-- After a label no keyword with white space behind it can be found at the start of a line. -/
theorem afterSpaced?_of_label (keyword : Keyword) (label : Identifier) (rest : List Char) :
    afterSpaced? keyword (label.chars ++ ':' :: rest) = none := by
  cases hlabel : afterLetters? keyword.letters label.chars with
  | none =>
      have hnone : after? keyword (label.chars ++ ':' :: rest) = none :=
        Capital.afterLetters?_append_of_not_isWord keyword.capital.upper hlabel (by decide) rest
      rw [afterSpaced?, hnone]
      rfl
  | some tail =>
      have hsome : after? keyword (label.chars ++ ':' :: rest) = some (tail ++ ':' :: rest) :=
        afterLetters?_append hlabel _
      obtain ⟨word, -, hcut⟩ := afterLetters?_eq_some_iff.mp hlabel
      rw [afterSpaced?, hsome, Option.bind_some]
      cases tail with
      | nil => rfl
      | cons c tail =>
          have hc : c ∈ label.chars := by simp [hcut]
          rw [List.cons_append, afterBlanks?,
            isBlank_of_isWord (List.all_eq_true.mp label.word c hc)]
          rfl

/-! ## Texts joined by a separator -/

/-- What stands in joined texts stands in the separator or in one of them. -/
theorem mem_intercalate {separator : List Char} {pieces : List (List Char)} {c : Char}
    (h : c ∈ separator.intercalate pieces) : c ∈ separator ∨ ∃ piece ∈ pieces, c ∈ piece := by
  induction pieces with
  | nil => cases h
  | cons piece pieces ih =>
      cases pieces with
      | nil =>
          rw [List.intercalate_singleton] at h
          exact Or.inr ⟨piece, List.mem_cons_self, h⟩
      | cons next pieces =>
          rw [List.intercalate_cons_cons, List.mem_append, List.mem_append] at h
          rcases h with (hpiece | hseparator) | hlater
          · exact Or.inr ⟨piece, List.mem_cons_self, hpiece⟩
          · exact Or.inl hseparator
          · exact (ih hlater).imp id fun ⟨other, hother, hc⟩ =>
              ⟨other, List.mem_cons_of_mem piece hother, hc⟩

/-- A text with a space in it can be cut there before joining. -/
theorem intercalate_append_cons (separator : List Char) (pieces : List (List Char))
    (first second : List Char) (others : List (List Char)) :
    separator.intercalate (pieces ++ (first ++ ' ' :: second) :: others) =
      separator.intercalate (pieces ++ [first]) ++
        ' ' :: separator.intercalate (second :: others) := by
  induction pieces with
  | nil =>
      cases others with
      | nil => simp
      | cons next others => simp
  | cons piece pieces ih =>
      rw [List.cons_append, List.cons_append, List.intercalate_cons_of_ne_nil (by simp),
        List.intercalate_cons_of_ne_nil (by simp), ih]
      simp

theorem intercalate_append (separator : List Char) {front back : List (List Char)}
    (hfront : front ≠ []) (hback : back ≠ []) :
    separator.intercalate (front ++ back) =
      separator.intercalate front ++ (separator ++ separator.intercalate back) := by
  induction front with
  | nil => exact absurd rfl hfront
  | cons piece front ih =>
      cases front with
      | nil =>
          rw [List.singleton_append, List.intercalate_cons_of_ne_nil hback, List.append_assoc,
            List.intercalate_singleton]
      | cons next front =>
          rw [List.cons_append, List.intercalate_cons_of_ne_nil (by simp),
            ih (List.cons_ne_nil _ _),
            List.intercalate_cons_cons]
          simp

theorem intercalate_append_singleton (separator : List Char) {pieces : List (List Char)}
    (hne : pieces ≠ []) (last : List Char) :
    separator.intercalate (pieces ++ [last]) =
      separator.intercalate pieces ++ (separator ++ last) := by
  rw [intercalate_append separator hne (List.cons_ne_nil last []), List.intercalate_singleton]

/-- Lines that end in a semicolon at the last are one statement. -/
theorem gather_append_singleton {lines : List (List Char)} {last : List Char}
    (hlines : ∀ line ∈ lines, line ≠ [] ∧ line.getLast? ≠ some ';')
    (hlast : last.getLast? = some ';') (pending : List Char) :
    gather pending (lines ++ [last]) =
      [continued pending ([' '].intercalate (lines ++ [last]))] := by
  induction lines generalizing pending with
  | nil =>
      rw [List.nil_append, List.intercalate_singleton]
      exact gather_cons_of_endsWith hlast pending []
  | cons line lines ih =>
      rw [List.forall_mem_cons] at hlines
      rw [List.cons_append, gather_cons_of_not_endsWith hlines.1.2, ih hlines.2,
        continued_continued pending hlines.1.1, List.intercalate_cons_of_ne_nil (by simp)]
      simp

/-! ## Cells and rows -/

/-- Whether a character may stand in a cell. -/
def isCellChar (c : Char) : Bool :=
  !([',', '[', ']', '/', ';', '\n'].contains c)

/-- A cell: a text without white space at its ends, without the marks of a script and without a
reserved word. -/
structure Cell where
  chars : List Char
  solid : Solid chars
  plain : chars.all isCellChar = true
  free : ∀ keyword ∈ reservedWords, hasWord keyword chars = false

namespace Cell

def text (cell : Cell) : String :=
  String.ofList cell.chars

/-- Two cells with a space between them. -/
def beside (first second : Cell) : Cell where
  chars := first.chars ++ ' ' :: second.chars
  solid := by
    have hfront : Flush (first.chars ++ [' ']) := first.solid.flush.append first.solid.ne_nil _
    have hline : '\n' ∉ first.chars ++ [' '] := by simp [first.solid.oneLine]
    simpa using second.solid.append_left hfront hline
  plain := by
    rw [List.all_append, List.all_cons, first.plain, second.plain]
    decide
  free keyword hkeyword :=
    hasWord_append_cons_eq_false (by decide) (first.free keyword hkeyword)
      (second.free keyword hkeyword)

theorem not_mem (cell : Cell) {c : Char} (hc : isCellChar c = false) : c ∉ cell.chars := by
  intro hmem
  rw [List.all_eq_true.mp cell.plain c hmem] at hc
  cases hc

end Cell

/-- A row: two cells or more. -/
structure InlineRow where
  cells : List Cell
  two : 2 ≤ cells.length

namespace InlineRow

/-- The cells of a row as texts. -/
def texts (row : InlineRow) : List String :=
  row.cells.map Cell.text

/-- The line of a row. -/
def line (row : InlineRow) : List Char :=
  [',', ' '].intercalate (row.cells.map Cell.chars)

theorem ne_nil (row : InlineRow) : row.cells ≠ [] := by
  intro hnil
  have htwo := row.two
  rw [hnil] at htwo
  exact absurd htwo (by decide)

/-- Two rows run together: the last cell of the first stands beside the first cell of the
second. -/
def runOn (front back : InlineRow) : InlineRow where
  cells := front.cells.dropLast ++
    (front.cells.getLast front.ne_nil).beside (back.cells.head back.ne_nil) :: back.cells.tail
  two := by
    have hfront := front.two
    have hback := back.two
    simp
    omega

theorem line_runOn (front back : InlineRow) :
    (front.runOn back).line = front.line ++ ' ' :: back.line := by
  have hfront := List.dropLast_append_getLast front.ne_nil
  have hback := List.cons_head_tail back.ne_nil
  rw [line, runOn, List.map_append, List.map_cons]
  conv_rhs => rw [line, line, ← hfront, ← hback, List.map_append, List.map_cons]
  exact intercalate_append_cons _ _ _ _ _

/-- All rows run together. -/
def runTogether : InlineRow → List InlineRow → InlineRow
  | row, [] => row
  | row, next :: rows => row.runOn (runTogether next rows)

theorem line_runTogether (first : InlineRow) (others : List InlineRow) :
    (runTogether first others).line = [' '].intercalate ((first :: others).map line) := by
  induction others generalizing first with
  | nil => simp [runTogether]
  | cons next others ih =>
      rw [runTogether, line_runOn, ih, List.map_cons (a := first),
        List.intercalate_cons_of_ne_nil (by simp)]
      simp

/-- Rows that run together have more cells than the first of them. -/
theorem length_lt_runTogether (first next : InlineRow) (others : List InlineRow) :
    first.cells.length < (runTogether first (next :: others)).cells.length := by
  have hfirst := first.two
  have hlater := (runTogether next others).two
  simp [runTogether, runOn]
  omega

/-- What the cells of a row lack, its line lacks, apart from commas. -/
theorem not_mem_line (row : InlineRow) {c : Char} (hc : isCellChar c = false) (hcomma : c ≠ ',') :
    c ∉ row.line := by
  intro hmem
  rcases mem_intercalate hmem with hseparator | ⟨piece, hpiece, hmem⟩
  · have hspace : c = ' ' := by simpa [hcomma] using hseparator
    rw [hspace] at hc
    exact absurd hc (by decide)
  · obtain ⟨cell, -, rfl⟩ := List.mem_map.mp hpiece
    exact cell.not_mem hc hmem

/-- The line of some cells is solid, and no reserved word stands in it. -/
theorem solid_intercalate {cells : List Cell} (hne : cells ≠ []) :
    Solid ([',', ' '].intercalate (cells.map Cell.chars)) ∧
      ∀ keyword ∈ reservedWords,
        hasWord keyword ([',', ' '].intercalate (cells.map Cell.chars)) = false := by
  induction cells with
  | nil => exact absurd rfl hne
  | cons cell cells ih =>
      cases cells with
      | nil =>
          rw [List.map_singleton, List.intercalate_singleton]
          exact ⟨cell.solid, cell.free⟩
      | cons next cells =>
          obtain ⟨hsolid, hfree⟩ := ih (List.cons_ne_nil _ _)
          rw [List.map_cons, List.intercalate_cons_of_ne_nil (by simp)]
          constructor
          · refine hsolid.append_left (cell.solid.flush.append cell.solid.ne_nil _) ?_
            simp [cell.solid.oneLine]
          · intro keyword hkeyword
            rw [List.append_assoc]
            exact hasWord_append_eq_false (cell.free keyword hkeyword) (by decide)
              (wordless_of_all (by decide)) (hfree keyword hkeyword)

theorem solid_line (row : InlineRow) : Solid row.line :=
  (solid_intercalate row.ne_nil).1

theorem free_line (row : InlineRow) {keyword : Keyword} (hreserved : keyword ∈ reservedWords) :
    hasWord keyword row.line = false :=
  (solid_intercalate row.ne_nil).2 keyword hreserved

/-- Cells between commas are found again by cutting and trimming. -/
theorem map_trim_splitOn_intercalate {cells : List Cell} (hne : cells ≠ []) {lead : List Char}
    (hlead : Blanks lead) :
    (List.splitOn ',' (lead ++ [',', ' '].intercalate (cells.map Cell.chars))).map trim =
      cells.map Cell.chars := by
  induction cells generalizing lead with
  | nil => exact absurd rfl hne
  | cons cell cells ih =>
      have hcomma : ',' ∉ lead ++ cell.chars := by
        rw [List.mem_append]
        exact not_or_intro (not_mem_comma_of_blanks hlead) (cell.not_mem (by decide))
      have htrim : trim (lead ++ cell.chars) = cell.chars := by
        simpa using cell.solid.trim_append hlead Blanks.nil
      cases cells with
      | nil =>
          rw [List.map_singleton, List.intercalate_singleton, List.splitOn_eq_singleton hcomma,
            List.map_singleton, htrim]
      | cons next cells =>
          have hcut : lead ++ [',', ' '].intercalate ((cell :: next :: cells).map Cell.chars) =
              (lead ++ cell.chars) ++
                ',' :: ([' '] ++ [',', ' '].intercalate ((next :: cells).map Cell.chars)) := by
            simp
          rw [hcut, List.splitOn_append_cons_self_of_not_mem hcomma, List.map_cons, htrim,
            ih (List.cons_ne_nil _ _) (Blanks.singleton (by decide))]
          rfl

/-- The cells of a row are read from its line. -/
theorem readRow_line (row : InlineRow) : readRow row.line = row.texts := by
  have hcomma : row.line.contains ',' = true := by
    obtain ⟨cells, htwo⟩ := row
    obtain _ | ⟨first, _ | ⟨second, cells⟩⟩ := cells
    · exact absurd htwo (by decide)
    · exact absurd htwo (by simp)
    · simp [line]
  have hcells : (List.splitOn ',' row.line).map trim = row.cells.map Cell.chars :=
    map_trim_splitOn_intercalate row.ne_nil Blanks.nil
  rw [readRow, if_pos hcomma]
  calc
    readNames row.line = ((List.splitOn ',' row.line).map trim).map String.ofList := by
      rw [List.map_map]
      rfl
    _ = (row.cells.map Cell.chars).map String.ofList := by rw [hcells]
    _ = row.texts := by
      rw [List.map_map]
      rfl

end InlineRow

/-! ## The statement line -/

/-- The lines of a script that loads rows under a label. -/
def inlineScriptLines (label : Identifier) (rows : Listing InlineRow) : List (List Char) :=
  (label.chars ++ [':']) :: "LOAD * INLINE [".toList ::
    (rows.toList.map InlineRow.line ++ ["];".toList])

/-- A script that loads rows under a label. -/
def inlineScript (label : Identifier) (rows : Listing InlineRow) : String :=
  String.ofList (['\n'].intercalate (inlineScriptLines label rows))

/-- The end of a statement line, with a row in brackets. -/
def bracketed (row : InlineRow) : List Char :=
  [' ', '[', ' '] ++ (row.line ++ [' ', ']', ';'])

/-- The statement line that loads one row under a label. -/
def inlineStatement (label : Identifier) (row : InlineRow) : List Char :=
  label.chars ++ ([':', ' '] ++ (Keyword.load.letters ++ ([' ', '*', ' '] ++
    (Keyword.inlineRows.letters ++ bracketed row))))

/-- A line that cleaning keeps as it is. -/
structure Clean (line : List Char) : Prop where
  solid : Solid line
  slash : '/' ∉ line
  remark : hasWord .remark line = false

theorem Clean.cleanLine_eq_self {line : List Char} (h : Clean line) : cleanLine line = line := by
  rw [cleanLine, (unslashed_of_not_mem h.slash).before_eq_self, withoutRemark_eq_self h.remark,
    h.solid.trim_eq_self]

theorem clean_label (label : Identifier) : Clean (label.chars ++ [':']) where
  solid := (solid_singleton (by decide)).append_left label.solid.flush label.solid.oneLine
  slash := by
    intro hmem
    have hlabel : '/' ∈ label.chars := by simpa using hmem
    exact absurd (List.all_eq_true.mp label.word _ hlabel) (by decide)
  remark := by
    have hlabel : hasWord .remark label.chars = false :=
      hasWord_eq_false (label.toPhrase.lacks (by decide))
    exact hasWord_append_cons_eq_false (by decide) hlabel (hasWord_nil .remark)

theorem clean_row (row : InlineRow) : Clean row.line where
  solid := row.solid_line
  slash := row.not_mem_line (by decide) (by decide)
  remark := row.free_line (by decide)

theorem clean_of_mem_inlineScriptLines {label : Identifier} {rows : Listing InlineRow}
    {line : List Char} (h : line ∈ inlineScriptLines label rows) : Clean line := by
  have hopening : Clean "LOAD * INLINE [".toList :=
    ⟨solid_of_isTrimmed (by decide) (by decide) (by decide), by decide, by decide⟩
  have hclosing : Clean "];".toList :=
    ⟨solid_of_isTrimmed (by decide) (by decide) (by decide), by decide, by decide⟩
  simp only [inlineScriptLines, List.mem_cons, List.mem_append, List.mem_map, List.not_mem_nil,
    or_false] at h
  rcases h with rfl | rfl | ⟨row, -, rfl⟩ | rfl
  · exact clean_label label
  · exact hopening
  · exact clean_row row
  · exact hclosing

theorem gather_inlineScriptLines (label : Identifier) (rows : Listing InlineRow) :
    gather [] (inlineScriptLines label rows) =
      [[' '].intercalate (inlineScriptLines label rows)] := by
  have hcut : inlineScriptLines label rows =
      ((label.chars ++ [':']) :: "LOAD * INLINE [".toList :: rows.toList.map InlineRow.line) ++
        ["];".toList] := rfl
  have hopen : ∀ line ∈ (label.chars ++ [':']) :: "LOAD * INLINE [".toList ::
      rows.toList.map InlineRow.line, line ≠ [] ∧ line.getLast? ≠ some ';' := by
    simp only [List.forall_mem_cons, List.forall_mem_map]
    refine ⟨by simp, by decide, fun row _ => ⟨row.solid_line.ne_nil, fun hlast => ?_⟩⟩
    exact row.not_mem_line (by decide) (by decide) (List.mem_of_getLast? hlast)
  rw [hcut, gather_append_singleton hopen rfl []]
  rfl

theorem intercalate_inlineScriptLines (label : Identifier) (rows : Listing InlineRow) :
    [' '].intercalate (inlineScriptLines label rows) =
      inlineStatement label (InlineRow.runTogether rows.first rows.others) := by
  have hrows : [' '].intercalate (rows.toList.map InlineRow.line) =
      (InlineRow.runTogether rows.first rows.others).line :=
    (InlineRow.line_runTogether rows.first rows.others).symm
  rw [inlineScriptLines, List.intercalate_cons_of_ne_nil (by simp),
    List.intercalate_cons_of_ne_nil (by simp),
    intercalate_append_singleton [' '] (by simp [Listing.toList]), hrows]
  simp [inlineStatement, bracketed, Keyword.letters]

/-- All rows of a script are in one statement line, and there they run together. -/
theorem statementLines_inlineScript (label : Identifier) (rows : Listing InlineRow) :
    statementLines (inlineScript label rows).toList =
      [inlineStatement label (InlineRow.runTogether rows.first rows.others)] := by
  have hlines : ((inlineScriptLines label rows).map cleanLine).filter (fun line => !line.isEmpty) =
      inlineScriptLines label rows := by
    rw [List.map_congr_left fun line h => (clean_of_mem_inlineScriptLines h).cleanLine_eq_self,
      List.map_id', List.filter_eq_self]
    intro line hline
    simp [(clean_of_mem_inlineScriptLines hline).solid.ne_nil]
  have hsplit : List.splitOn '\n' (['\n'].intercalate (inlineScriptLines label rows)) =
      inlineScriptLines label rows :=
    List.splitOn_intercalate _ (fun line h => (clean_of_mem_inlineScriptLines h).solid.oneLine)
      (List.cons_ne_nil _ _)
  rw [inlineScript, String.toList_ofList, statementLines, hsplit, hlines, gather_inlineScriptLines,
    intercalate_inlineScriptLines]

/-! ## What is read from the statement line -/

section Statement

variable (label : Identifier) (row : InlineRow)

/-- No keyword but those of the load is a word of its statement line. -/
theorem hasWord_inlineStatement {keyword : Keyword} (hreserved : keyword ∈ reservedWords)
    (hload : keyword ≠ .load) (hinline : keyword ≠ .inlineRows) :
    hasWord keyword (inlineStatement label row) = false := by
  have hlabel := hasWord_eq_false (label.toPhrase.lacks hreserved)
  have hwords : hasWord keyword Keyword.load.letters = false ∧
      hasWord keyword Keyword.inlineRows.letters = false :=
    ⟨hasWord_eq_false (Keyword.lacks_of_ne hreserved (Ne.symm hload)),
      hasWord_eq_false (Keyword.lacks_of_ne hreserved (Ne.symm hinline))⟩
  refine hasWord_append_eq_false hlabel (by simp) (wordless_of_all (by decide)) ?_
  refine hasWord_append_eq_false hwords.1 (by simp) (wordless_of_all (by decide)) ?_
  refine hasWord_append_eq_false hwords.2 (by simp) (wordless_of_all (by decide)) ?_
  rw [← List.append_nil [' ', ']', ';']]
  exact hasWord_append_eq_false (row.free_line hreserved) (by simp) (wordless_of_all (by decide))
    (hasWord_nil keyword)

theorem after?_inlineStatement {keyword : Keyword} (hreserved : keyword ∈ reservedWords) :
    after? keyword (inlineStatement label row) = none :=
  Capital.afterLetters?_append_of_not_isWord keyword.capital.upper
    (label.toPhrase.lacks hreserved _ (List.suffix_refl _)) (by decide) _

theorem isAssignment_inlineStatement : isAssignment (inlineStatement label row) = false := by
  rw [isAssignment, afterAssignKeyword?, after?_inlineStatement label row (by decide),
    after?_inlineStatement label row (by decide)]
  rfl

theorem isMappingLoad_inlineStatement : isMappingLoad (inlineStatement label row) = false := by
  rw [← Bool.not_eq_true]
  intro hmapping
  have hword := hasWord_of_isMappingLoad hmapping
  rw [hasWord_inlineStatement label row (by decide) (by decide) (by decide)] at hword
  cases hword

theorem readJoin_inlineStatement : readJoin (inlineStatement label row) = .ok none := by
  have hpair : ∀ kind, afterPair? kind .join (inlineStatement label row) = none := fun kind => by
    rw [afterPair?, inlineStatement]
    exact congrArg (Option.bind · _) (afterSpaced?_of_label kind label _)
  have hjoin : after? .join (inlineStatement label row) = none :=
    after?_inlineStatement label row (by decide)
  rw [readJoin, afterJoinWords?, hpair, hpair, hpair, hpair, hjoin]
  rfl

/-- What stands before `LOAD` holds no keyword. -/
theorem seals_label {keyword : Keyword} (hreserved : keyword ∈ reservedWords) :
    Seals keyword.letters (label.chars ++ [':', ' ']) :=
  keyword.capital.seals_append (label.toPhrase.lacks hreserved) (by simp)
    (wordless_of_all (by decide))

/-- What stands before `INLINE` does not hold that word. -/
theorem seals_opening :
    Seals Keyword.inlineRows.letters
      ((label.chars ++ [':', ' ']) ++ (Keyword.load.letters ++ [' ', '*', ' '])) :=
  (seals_label label (by decide)).append <|
    Keyword.inlineRows.capital.seals_append (Keyword.lacks_of_ne (by decide) (by decide)) (by simp)
      (wordless_of_all (by decide))

theorem inlineStatement_eq :
    inlineStatement label row =
      ((label.chars ++ [':', ' ']) ++ (Keyword.load.letters ++ [' ', '*', ' '])) ++
        (Keyword.inlineRows.letters ++ bracketed row) := by
  simp [inlineStatement]

theorem isLoad_inlineStatement : isLoad (inlineStatement label row) = true := by
  have hstart : StartsWordAfter (label.chars ++ [':', ' ']) :=
    startsWordAfter_append (by simp) (wordless_of_all (by decide))
  have hword : hasWord .load ((label.chars ++ [':', ' ']) ++ (Keyword.load.letters ++
      ([' ', '*', ' '] ++ (Keyword.inlineRows.letters ++ bracketed row)))) = true :=
    hasWord_append (seals_label label (by decide)) hstart rfl
  rw [List.append_assoc] at hword
  rw [isLoad, inlineStatement, hword]
  rfl

/-- The text between the brackets is the line of the row with a space at each end. -/
theorem inlineText?_inlineStatement :
    inlineText? (inlineStatement label row) = some (' ' :: (row.line ++ [' '])) := by
  have hgo : ∀ part, part ≠ [] → part <:+ ' ' :: (row.line ++ [' ']) →
      atBracketEnd (part ++ [']', ';']) = false := by
    intro part hne hpart
    obtain ⟨c, part, rfl⟩ := List.exists_cons_of_ne_nil hne
    have hc : c ∈ ' ' :: (row.line ++ [' ']) := hpart.subset List.mem_cons_self
    have hbracket : c ≠ ']' := by
      rintro rfl
      have hmem : ']' ∈ row.line := by simpa using hc
      exact row.not_mem_line (by decide) (by decide) hmem
    simp [atBracketEnd, List.isPrefixOf, Ne.symm hbracket]
  have htext : upTo? anyChar atBracketEnd (' ' :: (row.line ++ [' ']) ++ [']', ';']) =
      some (' ' :: (row.line ++ [' '])) :=
    upTo?_append (fun _ _ => rfl) hgo rfl
  have hhit : (['['].isPrefixOf? (skipBlanks (bracketed row))).bind (upTo? anyChar atBracketEnd) =
      some (' ' :: (row.line ++ [' '])) := by
    have hbody : ['['].isPrefixOf? (skipBlanks (bracketed row)) =
        some (' ' :: (row.line ++ [' ', ']', ';'])) := rfl
    rw [hbody, Option.bind_some, ← htext]
    simp
  rw [inlineStatement_eq]
  exact search?_after?_append (seals_opening label) hhit

/-- All that stands between the brackets is one row. -/
theorem readRows_inlineStatement : readRows (inlineStatement label row) = [row.texts] := by
  have htrim : trim (' ' :: (row.line ++ [' '])) = row.line :=
    row.solid_line.trim_append (Blanks.singleton (by decide)) (Blanks.singleton (by decide))
  rw [readRows, inlineText?_inlineStatement]
  simp [htrim, List.splitOn_eq_singleton row.solid_line.oneLine, row.solid_line.trim_eq_self,
    row.solid_line.ne_nil, row.readRow_line]

theorem readOrigin_inlineStatement :
    readOrigin (inlineStatement label row) = ⟨.inlined, none, some [row.texts]⟩ := by
  have hsource : hasWord .fromSource (inlineStatement label row) = false :=
    hasWord_inlineStatement label row (by decide) (by decide) (by decide)
  have hresident : hasWord .resident (inlineStatement label row) = false :=
    hasWord_inlineStatement label row (by decide) (by decide) (by decide)
  have hbracketed : hasBracketedSource (inlineStatement label row) = false := by
    rw [← Bool.not_eq_true]
    intro hbracketed
    rw [hasWord_of_hasBracketedSource hbracketed] at hsource
    cases hsource
  have hinline : hasWord .inlineRows (inlineStatement label row) = true := by
    have hstart : StartsWordAfter
        ((label.chars ++ [':', ' ']) ++ (Keyword.load.letters ++ [' ', '*', ' '])) := by
      rw [← List.append_assoc]
      exact startsWordAfter_append (by simp) (wordless_of_all (by decide))
    rw [inlineStatement_eq]
    exact hasWord_append (seals_opening label) hstart rfl
  simp [readOrigin, hbracketed, hsource, hresident, hinline, readRows_inlineStatement]

theorem readFields_inlineStatement :
    readFields (inlineStatement label row) = [⟨"*", none, false⟩] := by
  have hlist : fieldListAfter?
      ([' ', '*', ' '] ++ (Keyword.inlineRows.letters ++ bracketed row)) = some ['*'] := rfl
  have hstatement : inlineStatement label row = (label.chars ++ [':', ' ']) ++
      (Keyword.load.letters ++
        ([' ', '*', ' '] ++ (Keyword.inlineRows.letters ++ bracketed row))) := by
    simp [inlineStatement]
  rw [readFields_eq, fieldList?_eq, hstatement,
    search?_after?_append (seals_label label (by decide)) hlist]
  rfl

/-- The statement line has no clause but the rows. -/
theorem clauses_inlineStatement :
    readCondition? (inlineStatement label row) = none ∧
      readGrouping? (inlineStatement label row) = none ∧
      readOrdering? (inlineStatement label row) = none := by
  have hby : ∀ {α : Type} (next? : List Char → Option α) rest hit,
      (afterBy? rest).bind next? = some hit → startsWord rest = false := by
    intro α next? rest hit h
    obtain ⟨tail, htail, -⟩ := Option.bind_eq_some_iff.mp h
    obtain ⟨spaced, hspaced, -⟩ := Option.bind_eq_some_iff.mp htail
    exact startsWord_of_afterBlanks? hspaced
  refine ⟨?_, ?_, ?_⟩
  · rw [readCondition?, searchWord?_of_hasWord (fun rest hit h => ?_)
      (hasWord_inlineStatement label row (by decide) (by decide) (by decide))]
    · rfl
    · obtain ⟨spaced, hspaced, -⟩ := Option.bind_eq_some_iff.mp h
      exact startsWord_of_afterBlanks? hspaced
  · rw [readGrouping?, searchWord?_of_hasWord (hby _)
      (hasWord_inlineStatement label row (by decide) (by decide) (by decide))]
    rfl
  · rw [readOrdering?, searchWord?_of_hasWord (hby _)
      (hasWord_inlineStatement label row (by decide) (by decide) (by decide))]
    rfl

/-- The load of one row under a label. -/
def inlineLoad : Load where
  kind := .inlined
  label := some label.text
  fields := [⟨"*", none, false⟩]
  source := none
  condition := none
  grouping := none
  ordering := none
  join := none
  distinct := false
  rows := some [row.texts]

theorem readLine_inlineStatement :
    readLine (inlineStatement label row) = .ok (some (.load (inlineLoad label row))) := by
  have hlabel : loadLabel? (inlineStatement label row) = some label.chars :=
    loadLabel?_of_label label (Blanks.singleton (by decide)) _
  obtain ⟨hcondition, hgrouping, hordering⟩ := clauses_inlineStatement label row
  have hload : readLoad (inlineStatement label row) = .ok (inlineLoad label row) := by
    rw [readLoad, readJoin_inlineStatement, readOrigin_inlineStatement, hlabel,
      readFields_inlineStatement, hcondition, hgrouping, hordering,
      hasWord_inlineStatement label row (by decide) (by decide) (by decide)]
    rfl
  rw [readLine, isAssignment_inlineStatement, isMappingLoad_inlineStatement,
    isLoad_inlineStatement, hload]
  rfl

end Statement

/-! ## Rows that are kept -/

namespace InlineRow

theorem length_texts (row : InlineRow) : row.texts.length = row.cells.length :=
  List.length_map _

/-- Rows that run together are the first of them only if it is the only one. -/
theorem texts_runTogether_eq_iff (first : InlineRow) (others : List InlineRow) :
    (runTogether first others).texts = first.texts ↔ others = [] := by
  cases others with
  | nil => simp [runTogether]
  | cons next others =>
      refine ⟨fun h => ?_, nofun⟩
      have hlength := congrArg List.length h
      rw [length_texts, length_texts] at hlength
      exact absurd hlength (length_lt_runTogether first next others).ne'

/-- Rows that run together are all the rows only if there is just one. -/
theorem singleton_runTogether_eq_iff (rows : Listing InlineRow) :
    [(runTogether rows.first rows.others).texts] = rows.toList.map texts ↔ rows.others = [] := by
  obtain ⟨first, others⟩ := rows
  rw [Listing.toList, List.map_cons, List.cons.injEq, texts_runTogether_eq_iff]
  constructor
  · exact And.left
  · rintro rfl
    exact ⟨rfl, rfl⟩

end InlineRow

/-- The statements of a script that loads rows are one load of all rows run together. -/
theorem readScript_inlineScript (label : Identifier) (rows : Listing InlineRow) :
    readScript (inlineScript label rows) =
      .ok [.load (inlineLoad label (InlineRow.runTogether rows.first rows.others))] := by
  have hline := readLine_inlineStatement label (InlineRow.runTogether rows.first rows.others)
  show (readLines (statementLines (inlineScript label rows).toList) ∅).1 = _
  rw [statementLines_inlineScript, readLines, hline]
  rfl

end QlikMigration.Script

namespace QlikMigration

open QlikMigration.Script QlikMigration.Text

/-! ## The table of the rows -/

/-- The table of one inline row under a label. -/
def inlineTable (label : Identifier) (row : InlineRow) : Table where
  name := label.text
  sourceType := LoadKind.inlined.word
  columns := row.texts.map fun cell => { name := cell }

theorem columnNames_inlineTable (label : Identifier) (row : InlineRow) :
    (inlineTable label row).columnNames = row.texts := by
  rw [Table.columnNames, inlineTable, List.map_map]
  exact List.map_id _

theorem Builder.addLoad_inlineLoad (builder : Builder) (label : Identifier) (row : InlineRow) :
    builder.addLoad (inlineLoad label row) = .ok { builder with
      model.tables := builder.model.tables.put label.text (inlineTable label row) } := by
  have hne : label.text ≠ "" := by
    intro hempty
    exact label.ne_nil (String.ofList_injective hempty)
  have hname : builder.nameFor (inlineLoad label row) = (label.text, builder) := by
    have hpresent : present? (inlineLoad label row).label = some label.text := by
      simp [present?, inlineLoad, hne]
    rw [nameFor, hpresent]
  rw [addLoad, hname]
  rfl

theorem DataModel.exists_ofStatements_inlineLoad (label : Identifier) (row : InlineRow) :
    ∃ model, DataModel.ofStatements [.load (inlineLoad label row)] = .ok model ∧
      model.tables.entries = [(label.text, inlineTable label row)] := by
  have hmodel : DataModel.ofStatements [.load (inlineLoad label row)] =
      .ok (Builder.finish
        { model.tables := .ofList [(label.text, inlineTable label row)] }).model := by
    rw [DataModel.ofStatements, Builder.run, List.foldlM_cons, Builder.add,
      Builder.addLoad_inlineLoad]
    rfl
  exact ⟨_, hmodel, rfl⟩

/-- What becomes of the rows of a script that loads them under a label. -/
structure InlineRun (label : Identifier) (rows : Listing InlineRow) (load : Load)
    (model : DataModel) (table : Table) : Prop where
  read : readScript (inlineScript label rows) = .ok [.load load]
  kind : load.kind = .inlined
  /-- The rows of the load are one row, all rows run together. -/
  merged : load.rows = some [(InlineRow.runTogether rows.first rows.others).texts]
  kept : load.rows = some (rows.toList.map InlineRow.texts) ↔ rows.others = []
  built : DataModel.ofScript (inlineScript label rows) = .ok model
  tables : model.tables.entries = [(label.text, table)]
  /-- The columns of the table are the cells of that row. -/
  columns : table.columnNames = (InlineRow.runTogether rows.first rows.others).texts
  header : table.columnNames = rows.first.texts ↔ rows.others = []

/-- The rows of an inline load are kept, and the first row gives the columns of its table, exactly
if there is just one row. -/
theorem exists_inlineRun_of_rows (label : Identifier) (rows : Listing InlineRow) :
    ∃ load model table, InlineRun label rows load model table := by
  have hread := readScript_inlineScript label rows
  obtain ⟨model, hmodel, htables⟩ := DataModel.exists_ofStatements_inlineLoad label
    (InlineRow.runTogether rows.first rows.others)
  refine ⟨_, model, _, hread, rfl, rfl, ?_, DataModel.ofScript_of_readScript hread hmodel, htables,
    columnNames_inlineTable _ _, ?_⟩
  · rw [← InlineRow.singleton_runTogether_eq_iff]
    exact Option.some_inj
  · rw [columnNames_inlineTable, InlineRow.texts_runTogether_eq_iff]

/-- A cell of one character. -/
def Script.Cell.ofChar (c : Char) (hblank : isBlank c = false) (hplain : isCellChar c = true) :
    Cell where
  chars := [c]
  solid := solid_singleton hblank
  plain := by simp [hplain]
  free keyword _ := by
    -- Every keyword has two letters or more.
    apply hasWord_eq_false
    intro part hpart
    rcases List.suffix_cons_iff.mp hpart with rfl | hnil
    · cases keyword <;> simp [afterLetters?, Keyword.letters]
    · rw [List.suffix_nil.mp hnil]
      exact keyword.capital.afterLetters?_nil

/-- The label of the rows below. -/
def headedLabel : Identifier :=
  ⟨⟨['T'], by decide, by decide, by decide⟩, by decide⟩

/-- A header and a row below it. -/
def headedRows : Listing InlineRow where
  first := ⟨[.ofChar 'a' (by decide) (by decide), .ofChar 'b' (by decide) (by decide)], by decide⟩
  others := [⟨[.ofChar '1' (by decide) (by decide), .ofChar '2' (by decide) (by decide)],
    by decide⟩]

/-- The row below the header is not kept, but runs together with it. -/
theorem exists_inlineRun_of_headedRows :
    ∃ load model table,
      readScript "T:\nLOAD * INLINE [\na, b\n1, 2\n];" = .ok [.load load] ∧
        load.rows = some [["a", "b 1", "2"]] ∧
        DataModel.ofScript "T:\nLOAD * INLINE [\na, b\n1, 2\n];" = .ok model ∧
        model.tables.entries = [("T", table)] ∧ table.columnNames = ["a", "b 1", "2"] := by
  obtain ⟨load, model, table, hrun⟩ :=
    exists_inlineRun_of_rows headedLabel headedRows
  have hscript : inlineScript headedLabel headedRows =
      "T:\nLOAD * INLINE [\na, b\n1, 2\n];" := by
    decide
  have hread := hrun.read
  have hbuilt := hrun.built
  rw [hscript] at hread hbuilt
  exact ⟨load, model, table, hread, hrun.merged, hbuilt, hrun.tables, hrun.columns⟩

end QlikMigration
