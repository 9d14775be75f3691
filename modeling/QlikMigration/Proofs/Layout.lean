import QlikMigration.Proofs.PlainText
import QlikMigration.Script.Lines

/-!
# How a statement may be laid out

A statement is a row of tokens with separators between them: white space alone,
or a mark such as a comma with white space around it. How much white space
stands where is left to the writer, line ends included, so one row has many
written forms; a semicolon ends each of them.

Reading a script first cuts it into lines, trims them and joins them again. On a
written statement this has one effect: white space that holds a line end becomes
one space. The result is a written form of the same row on a single line, and a
script of several statements falls into these lines.
-/

namespace QlikMigration.Script

open QlikMigration.Text

/-! ## Pieces and their written forms -/

/-- What a statement is put together from: its keywords, and the phrases between. -/
inductive Token
  | word (keyword : Keyword)
  | phrase (phrase : Phrase)
  deriving DecidableEq

/-- The characters of a token. -/
def Token.chars : Token → List Char
  | word keyword => keyword.letters
  | phrase text => text.chars

/-- How much white space has its place somewhere. -/
inductive Room
  | tight
  | loose
  | spaced
  deriving DecidableEq, Repr

/-- The white space that fits a place. -/
def Room.Holds : Room → List Char → Prop
  | tight, cs => cs = []
  | loose, cs => Blanks cs
  | spaced, cs => Blanks cs ∧ cs ≠ []

/-- What stands between two tokens. -/
inductive Separator
  | gap
  | colon
  | equals
  | comma
  | opening
  | closing
  deriving DecidableEq, Repr

namespace Separator

/-- The mark of a separator; a gap has none. -/
def mark : Separator → List Char
  | gap => []
  | colon => [':']
  | equals => ['=']
  | comma => [',']
  | opening => ['(']
  | closing => [')']

/-- The white space before the mark. -/
def before : Separator → Room
  | gap => .spaced
  | colon | closing => .tight
  | equals | comma | opening => .loose

/-- The white space after the mark. -/
def after : Separator → Room
  | gap | opening => .tight
  | colon | equals | comma => .loose
  | closing => .spaced

/-- The texts that are a written form of a separator. -/
def Writes (separator : Separator) (cs : List Char) : Prop :=
  ∃ lead trail, separator.before.Holds lead ∧ separator.after.Holds trail ∧
    cs = lead ++ (separator.mark ++ trail)

end Separator

/-- A token and the separator after it. -/
abbrev Piece := Token × Separator

/-- The texts that are a written form of pieces. -/
inductive Written : List Piece → List Char → Prop
  | nil : Written [] []
  | cons {token : Token} {separator : Separator} {between rest : List Char}
      {pieces : List Piece} (hseparator : separator.Writes between)
      (hrest : Written pieces rest) :
      Written ((token, separator) :: pieces) (token.chars ++ (between ++ rest))

/-- Pieces and a last token, which has no separator after it. -/
structure Row where
  front : List Piece
  token : Token
  deriving DecidableEq

namespace Row

/-- The pieces of a row with a separator after the last token. -/
def closedBy (row : Row) (separator : Separator) : List Piece :=
  row.front ++ [(row.token, separator)]

/-- A row with further pieces before it. -/
def prepend (pieces : List Piece) (row : Row) : Row :=
  ⟨pieces ++ row.front, row.token⟩

/-- Rows joined by a separator. -/
def join (separator : Separator) (first : Row) : List Row → Row
  | [] => first
  | next :: others => prepend (first.closedBy separator) (join separator next others)

/-- All tokens of a row. -/
def tokens (row : Row) : List Token :=
  row.front.map Prod.fst ++ [row.token]

/-- The texts that are a written form of a row. -/
def Writes (row : Row) (cs : List Char) : Prop :=
  ∃ start, Written row.front start ∧ cs = start ++ row.token.chars

/-- The texts that are a written form of a row with a semicolon at the end. -/
def WritesClosed (row : Row) (cs : List Char) : Prop :=
  ∃ text lead, row.Writes text ∧ Blanks lead ∧ cs = text ++ (lead ++ [';'])

end Row

/-! ## Separators -/

theorem Room.Holds.blanks {room : Room} {cs : List Char} (h : room.Holds cs) : Blanks cs := by
  cases room with
  | tight =>
      obtain rfl : cs = [] := h
      exact Blanks.nil
  | loose => exact h
  | spaced => exact h.1

namespace Separator

variable {separator : Separator} {cs : List Char}

theorem writes_gap_iff : gap.Writes cs ↔ Blanks cs ∧ cs ≠ [] := by
  constructor
  · rintro ⟨lead, trail, hlead, htrail, rfl⟩
    obtain rfl : trail = [] := htrail
    rw [mark, List.append_nil, List.append_nil]
    exact hlead
  · rintro h
    exact ⟨cs, [], h, rfl, by simp [mark]⟩

theorem writes_colon_iff : colon.Writes cs ↔ ∃ trail, Blanks trail ∧ cs = ':' :: trail := by
  constructor
  · rintro ⟨lead, trail, hlead, htrail, rfl⟩
    obtain rfl : lead = [] := hlead
    exact ⟨trail, htrail, rfl⟩
  · rintro ⟨trail, htrail, rfl⟩
    exact ⟨[], trail, rfl, htrail, rfl⟩

theorem writes_equals_iff :
    equals.Writes cs ↔ ∃ lead trail, Blanks lead ∧ Blanks trail ∧ cs = lead ++ '=' :: trail :=
  Iff.rfl

theorem writes_comma_iff :
    comma.Writes cs ↔ ∃ lead trail, Blanks lead ∧ Blanks trail ∧ cs = lead ++ ',' :: trail :=
  Iff.rfl

theorem writes_opening_iff : opening.Writes cs ↔ ∃ lead, Blanks lead ∧ cs = lead ++ ['('] := by
  constructor
  · rintro ⟨lead, trail, hlead, htrail, rfl⟩
    obtain rfl : trail = [] := htrail
    exact ⟨lead, hlead, rfl⟩
  · rintro ⟨lead, hlead, rfl⟩
    exact ⟨lead, [], hlead, rfl, rfl⟩

theorem writes_closing_iff :
    closing.Writes cs ↔ ∃ trail, Blanks trail ∧ trail ≠ [] ∧ cs = ')' :: trail := by
  constructor
  · rintro ⟨lead, trail, hlead, htrail, rfl⟩
    obtain rfl : lead = [] := hlead
    exact ⟨trail, htrail.1, htrail.2, rfl⟩
  · rintro ⟨trail, hblanks, hne, rfl⟩
    exact ⟨[], trail, rfl, ⟨hblanks, hne⟩, rfl⟩

theorem wordless_mark (separator : Separator) : Wordless separator.mark := by
  cases separator with
  | gap => exact fun _ hc => absurd hc List.not_mem_nil
  | colon | equals | comma | opening | closing => exact List.forall_mem_singleton.mpr (by decide)

/-- A separator is never empty. -/
theorem Writes.ne_nil (h : separator.Writes cs) : cs ≠ [] := by
  obtain ⟨lead, trail, hlead, -, rfl⟩ := h
  cases separator with
  | gap => simp [hlead.2]
  | colon | equals | comma | opening | closing => simp [mark]

/-- No part of a word stands in a separator. -/
theorem Writes.wordless (h : separator.Writes cs) : Wordless cs := by
  obtain ⟨lead, trail, hlead, htrail, rfl⟩ := h
  intro c hc
  rcases List.mem_append.mp hc with hmem | hmem
  · exact hlead.blanks.wordless c hmem
  · rcases List.mem_append.mp hmem with hmark | hmem
    · exact separator.wordless_mark c hmark
    · exact htrail.blanks.wordless c hmem

theorem Writes.startsWord_append (h : separator.Writes cs) (rest : List Char) :
    startsWord (cs ++ rest) = false := by
  obtain ⟨c, cs, rfl⟩ := List.exists_cons_of_ne_nil h.ne_nil
  exact h.wordless c List.mem_cons_self

/-- No slash stands in a separator. -/
theorem Writes.not_mem_slash (h : separator.Writes cs) : '/' ∉ cs := by
  obtain ⟨lead, trail, hlead, htrail, rfl⟩ := h
  have hmark : '/' ∉ separator.mark := by cases separator <;> decide
  have hblank : isBlank '/' = false := by decide
  simp [hmark, hlead.blanks.not_mem hblank, htrail.blanks.not_mem hblank]

/-- No semicolon stands in a separator. -/
theorem Writes.not_mem_semicolon (h : separator.Writes cs) : ';' ∉ cs := by
  obtain ⟨lead, trail, hlead, htrail, rfl⟩ := h
  have hmark : ';' ∉ separator.mark := by cases separator <;> decide
  have hblank : isBlank ';' = false := by decide
  simp [hmark, hlead.blanks.not_mem hblank, htrail.blanks.not_mem hblank]

end Separator

/-! ## Tokens -/

namespace Token

theorem solid (token : Token) : Solid token.chars := by
  cases token with
  | word keyword => exact keyword.solid
  | phrase text => exact text.solid

theorem not_mem_semicolon (token : Token) : ';' ∉ token.chars := by
  cases token with
  | word keyword =>
      cases keyword <;> decide
  | phrase text => exact text.not_mem_semicolon

theorem unslashed (token : Token) : Unslashed token.chars := by
  cases token with
  | word keyword =>
      exact unslashed_of_contains_eq_false (by cases keyword <;> decide)
  | phrase text => exact text.unslashed

/-- A token other than a reserved word lacks its letters. -/
theorem lacks {token : Token} {reserved : Keyword} (hreserved : reserved ∈ reservedWords)
    (hne : token ≠ .word reserved) : Lacks reserved.letters token.chars := by
  cases token with
  | word keyword =>
      exact Keyword.lacks_of_ne hreserved fun heq => hne (congrArg Token.word heq)
  | phrase text => exact text.lacks hreserved

end Token

/-! ## Written texts -/

namespace Written

variable {pieces front back : List Piece} {cs : List Char}

/-- A written form of two rows of pieces is a written form of each. -/
theorem append_iff :
    Written (front ++ back) cs ↔ ∃ start rest, Written front start ∧ Written back rest ∧
      cs = start ++ rest := by
  induction front generalizing cs with
  | nil =>
      constructor
      · intro h
        exact ⟨[], cs, .nil, h, rfl⟩
      · rintro ⟨start, rest, hstart, hrest, rfl⟩
        cases hstart
        exact hrest
  | cons piece front ih =>
      constructor
      · intro h
        cases h with
        | cons hseparator hrest =>
            obtain ⟨start, rest, hstart, hback, rfl⟩ := ih.mp hrest
            exact ⟨_, rest, .cons hseparator hstart, hback, by simp⟩
      · rintro ⟨start, rest, hstart, hback, rfl⟩
        cases hstart with
        | cons hseparator hfront =>
            rw [List.append_assoc, List.append_assoc]
            exact .cons hseparator (ih.mpr ⟨_, rest, hfront, hback, rfl⟩)

theorem cons_iff {token : Token} {separator : Separator} :
    Written ((token, separator) :: pieces) cs ↔
      ∃ between rest, separator.Writes between ∧ Written pieces rest ∧
        cs = token.chars ++ (between ++ rest) := by
  constructor
  · intro h
    cases h with
    | cons hseparator hrest => exact ⟨_, _, hseparator, hrest, rfl⟩
  · rintro ⟨between, rest, hseparator, hrest, rfl⟩
    exact .cons hseparator hrest

theorem flush (h : Written pieces cs) : Flush cs := by
  cases h with
  | nil => exact flush_nil
  | @cons token _ _ _ _ _ _ => exact token.solid.flush.append token.solid.ne_nil _

/-- A text whose tokens lack letters seals them. -/
theorem seals_of_lacks (h : Written pieces cs) {letters : List Char} (hcapital : Capital letters)
    (hlacks : ∀ piece ∈ pieces, Lacks letters piece.1.chars) : Seals letters cs := by
  induction h with
  | nil => exact seals_nil
  | cons hseparator hrest ih =>
      rw [← List.append_assoc]
      refine Seals.append ?_ (ih fun piece hpiece => hlacks piece (List.mem_cons_of_mem _ hpiece))
      exact hcapital.seals_append (hlacks _ List.mem_cons_self) hseparator.ne_nil
        hseparator.wordless

/-- A text whose tokens are other than a reserved word seals its letters. -/
theorem seals (h : Written pieces cs) {reserved : Keyword} (hreserved : reserved ∈ reservedWords)
    (hne : ∀ piece ∈ pieces, piece.1 ≠ .word reserved) : Seals reserved.letters cs :=
  h.seals_of_lacks reserved.capital fun piece hpiece => Token.lacks hreserved (hne piece hpiece)

/-- A word may start after written pieces. -/
theorem startsWordAfter (h : Written pieces cs) : StartsWordAfter cs := by
  induction h with
  | nil => exact startsWordAfter_nil
  | @cons token separator between rest pieces hseparator hrest ih =>
      rw [← List.append_assoc]
      cases rest with
      | nil =>
          rw [List.append_nil]
          exact startsWordAfter_append hseparator.ne_nil hseparator.wordless
      | cons c rest =>
          unfold StartsWordAfter at ih ⊢
          rwa [List.getLast?_append_of_ne_nil _ (List.cons_ne_nil c rest)]

theorem unslashed_append (h : Written pieces cs) {rest : List Char} (hrest : Unslashed rest) :
    Unslashed (cs ++ rest) := by
  induction h with
  | nil => exact hrest
  | cons hseparator _ ih =>
      rw [List.append_assoc, List.append_assoc]
      apply (Token.unslashed _).append (ih.append_of_not_mem hseparator.not_mem_slash)
      rw [List.head?_append_of_ne_nil _ hseparator.ne_nil]
      exact fun hslash => hseparator.not_mem_slash (List.mem_of_mem_head? hslash)

theorem not_mem_semicolon (h : Written pieces cs) : ';' ∉ cs := by
  induction h with
  | nil => simp
  | cons hseparator _ ih => simp [Token.not_mem_semicolon, hseparator.not_mem_semicolon, ih]

end Written

namespace Row

variable {row : Row} {cs : List Char}

theorem writes_prepend_iff {pieces : List Piece} :
    (prepend pieces row).Writes cs ↔
      ∃ start rest, Written pieces start ∧ row.Writes rest ∧ cs = start ++ rest := by
  constructor
  · rintro ⟨whole, hwhole, rfl⟩
    obtain ⟨start, rest, hstart, hrest, rfl⟩ := Written.append_iff.mp hwhole
    exact ⟨start, rest ++ row.token.chars, hstart, ⟨rest, hrest, rfl⟩, by simp [prepend]⟩
  · rintro ⟨start, _, hstart, ⟨rest, hrest, rfl⟩, rfl⟩
    exact ⟨start ++ rest, Written.append_iff.mpr ⟨start, rest, hstart, hrest, rfl⟩, by
      simp [prepend]⟩

theorem written_closedBy_iff {separator : Separator} :
    Written (row.closedBy separator) cs ↔
      ∃ text between, row.Writes text ∧ separator.Writes between ∧ cs = text ++ between := by
  rw [closedBy, Written.append_iff]
  constructor
  · rintro ⟨start, _, hstart, hlast, rfl⟩
    obtain ⟨between, _, hbetween, hnil, rfl⟩ := Written.cons_iff.mp hlast
    cases hnil
    exact ⟨start ++ row.token.chars, between, ⟨start, hstart, rfl⟩, hbetween, by simp⟩
  · rintro ⟨_, between, ⟨start, hstart, rfl⟩, hbetween, rfl⟩
    exact ⟨start, _, hstart, .cons hbetween .nil, by simp⟩

theorem writes_join_cons_iff {separator : Separator} {first next : Row} {others : List Row} :
    (join separator first (next :: others)).Writes cs ↔
      ∃ text between rest, first.Writes text ∧ separator.Writes between ∧
        (join separator next others).Writes rest ∧ cs = text ++ (between ++ rest) := by
  rw [join, writes_prepend_iff]
  constructor
  · rintro ⟨_, rest, hstart, hrest, rfl⟩
    obtain ⟨text, between, htext, hbetween, rfl⟩ := written_closedBy_iff.mp hstart
    exact ⟨text, between, rest, htext, hbetween, hrest, by simp⟩
  · rintro ⟨text, between, rest, htext, hbetween, hrest, rfl⟩
    exact ⟨text ++ between, rest, written_closedBy_iff.mpr ⟨text, between, htext, hbetween, rfl⟩,
      hrest, by simp⟩

theorem map_fst_closedBy (row : Row) (separator : Separator) :
    (row.closedBy separator).map Prod.fst = row.tokens := by
  simp [closedBy, tokens]

theorem tokens_prepend (pieces : List Piece) (row : Row) :
    (prepend pieces row).tokens = pieces.map Prod.fst ++ row.tokens := by
  simp [prepend, tokens]

theorem mem_tokens_join {separator : Separator} {first : Row} {others : List Row}
    {token : Token} :
    token ∈ (join separator first others).tokens ↔ ∃ row ∈ first :: others, token ∈ row.tokens := by
  induction others generalizing first with
  | nil => simp [join]
  | cons next others ih =>
      rw [join, tokens_prepend, map_fst_closedBy, List.mem_append, ih]
      simp

namespace Writes

theorem ne_nil (h : row.Writes cs) : cs ≠ [] := by
  obtain ⟨start, -, rfl⟩ := h
  simp [row.token.solid.ne_nil]

theorem flush (h : row.Writes cs) : Flush cs := by
  obtain ⟨start, hstart, rfl⟩ := h
  cases start with
  | nil => exact row.token.solid.flush
  | cons c start => exact hstart.flush.append (List.cons_ne_nil c start) _

theorem last (h : row.Writes cs) : ∀ c ∈ cs.getLast?, isBlank c = false := by
  obtain ⟨start, -, rfl⟩ := h
  rw [List.getLast?_append_of_ne_nil start row.token.solid.ne_nil]
  exact row.token.solid.last

theorem unslashed (h : row.Writes cs) : Unslashed cs := by
  obtain ⟨start, hstart, rfl⟩ := h
  exact hstart.unslashed_append row.token.unslashed

theorem solid (h : row.Writes cs) (honeLine : '\n' ∉ cs) : Solid cs :=
  ⟨h.ne_nil, h.flush, h.last, honeLine⟩

theorem not_mem_semicolon (h : row.Writes cs) : ';' ∉ cs := by
  obtain ⟨start, hstart, rfl⟩ := h
  simp [hstart.not_mem_semicolon, row.token.not_mem_semicolon]

/-- A row whose tokens lack letters lacks them. -/
theorem lacks_of_tokens (h : row.Writes cs) {letters : List Char} (hcapital : Capital letters)
    (hlacks : ∀ token ∈ row.tokens, Lacks letters token.chars) : Lacks letters cs := by
  obtain ⟨start, hstart, rfl⟩ := h
  refine (hstart.seals_of_lacks hcapital fun piece hpiece => hlacks _ ?_).lacks_append
    (hlacks _ ?_)
  · exact List.mem_append_left _ (List.mem_map_of_mem hpiece)
  · exact List.mem_append_right _ (by simp)

/-- A row without a reserved word lacks its letters. -/
theorem lacks (h : row.Writes cs) {reserved : Keyword} (hreserved : reserved ∈ reservedWords)
    (hne : .word reserved ∉ row.tokens) : Lacks reserved.letters cs :=
  h.lacks_of_tokens reserved.capital fun _ htoken =>
    Token.lacks hreserved fun heq => hne (heq ▸ htoken)

end Writes

namespace WritesClosed

theorem unslashed (h : row.WritesClosed cs) : Unslashed cs := by
  obtain ⟨text, lead, htext, hlead, rfl⟩ := h
  have hslash : '/' ∉ lead ++ [';'] := by simp [hlead.not_mem (show isBlank '/' = false by decide)]
  exact htext.unslashed.append (unslashed_of_not_mem hslash)
    fun hmem => hslash (List.mem_of_mem_head? hmem)

/-- A statement without a reserved word seals its letters. -/
theorem seals (h : row.WritesClosed cs) {reserved : Keyword}
    (hreserved : reserved ∈ reservedWords) (hne : .word reserved ∉ row.tokens) :
    Seals reserved.letters cs := by
  obtain ⟨text, lead, htext, hlead, rfl⟩ := h
  have hwordless : Wordless (lead ++ [';']) := hlead.wordless_append_singleton (by decide)
  exact reserved.capital.seals_append (htext.lacks hreserved hne) (by simp) hwordless

end WritesClosed

end Row

/-! ## Lines -/

/-- Every piece of a text is a part of it. -/
theorem infix_of_mem_splitOn {delimiter : Char} {piece cs : List Char}
    (h : piece ∈ List.splitOn delimiter cs) : piece <:+: cs := by
  have hcut : [delimiter].intercalate (List.splitOn delimiter cs) = cs :=
    List.intercalate_splitOn delimiter
  rw [← hcut]
  generalize List.splitOn delimiter cs = pieces at h
  induction pieces with
  | nil => cases h
  | cons first pieces ih =>
      cases pieces with
      | nil =>
          obtain rfl : piece = first := by simpa using h
          rw [List.intercalate_singleton]
      | cons second pieces =>
          rw [List.intercalate_cons_cons]
          rcases List.mem_cons.mp h with rfl | hmem
          · rw [List.append_assoc]
            exact (List.prefix_append _ _).isInfix
          · exact (ih hmem).trans (List.suffix_append _ _).isInfix

/-- The lines of a text without the white space around them, blank lines left out. -/
def rows (cs : List Char) : List (List Char) :=
  ((List.splitOn '\n' cs).map trim).filter fun line => !line.isEmpty

/-- A line without the word `REM` is kept whole. -/
theorem withoutRemark_eq_self {line : List Char} (h : hasWord .remark line = false) :
    withoutRemark line = line := by
  have hnone : findFirst? (fun prev rest =>
      if wordMayStart prev then
        (after? .remark rest).filter fun tail => !startsWord tail
      else none) line = none := by
    rw [← Option.not_isSome_iff_eq_none]
    exact Bool.not_eq_true _ ▸ h
  rw [withoutRemark, hnone]

/-- In a text without comments the lines are only trimmed. -/
theorem statementLines_eq_gather_rows {script : List Char} (hslashes : Unslashed script)
    (hremark : Lacks Keyword.remark.letters script) :
    statementLines script = gather [] (rows script) := by
  have hclean : (List.splitOn '\n' script).map cleanLine = (List.splitOn '\n' script).map trim := by
    apply List.map_congr_left
    intro line hline
    have hinfix := infix_of_mem_splitOn hline
    have hwhole : Unslashed line := List.IsChain.infix hslashes hinfix
    have hkept := withoutRemark_eq_self (hasWord_eq_false (hremark.of_infix hinfix))
    rw [cleanLine, hwhole.before_eq_self, hkept]
  rw [statementLines, hclean, rows]

@[simp]
theorem rows_nil : rows [] = [] := rfl

theorem trim_cons_of_isBlank {c : Char} (hc : isBlank c = true) (cs : List Char) :
    trim (c :: cs) = trim cs := by
  rw [trim, trimOf, trimStartOf, List.dropWhile_cons_of_pos hc]
  rfl

/-- White space before a text leaves its lines as they are. -/
theorem rows_blanks_append {gap : List Char} (hgap : Blanks gap) (cs : List Char) :
    rows (gap ++ cs) = rows cs := by
  induction gap with
  | nil => rfl
  | cons c gap ih =>
      have hrest : rows (gap ++ cs) = rows cs := ih fun d hd => hgap d (List.mem_cons_of_mem c hd)
      rw [← hrest, List.cons_append]
      by_cases hc : c = '\n'
      · subst hc
        rfl
      · -- The character goes to the first line, where trimming takes it away again.
        have hdelimiter : (c == '\n') = false := by simpa using hc
        rw [rows, rows, List.splitOn_cons_eq_if_modifyHead, hdelimiter, if_neg Bool.false_ne_true]
        cases hsplit : List.splitOn '\n' (gap ++ cs) with
        | nil => exact absurd hsplit (List.splitOn_ne_nil _ _)
        | cons line lines =>
            rw [List.modifyHead_cons, List.map_cons, List.map_cons,
              trim_cons_of_isBlank (hgap c List.mem_cons_self)]

/-- A solid text is a line of its own if a line end or nothing follows it. -/
theorem Solid.rows_append {line gap rest : List Char} (hline : Solid line) (hgap : Blanks gap)
    (hbreak : '\n' ∈ gap ∨ rest = []) : rows (line ++ (gap ++ rest)) = line :: rows rest := by
  have hkeep : (!line.isEmpty) = true := by simp [hline.ne_nil]
  by_cases hmem : '\n' ∈ gap
  · obtain ⟨first, later, rfl, hfirst⟩ := List.eq_append_cons_of_mem hmem
    have hfront : '\n' ∉ line ++ first := by simp [hline.oneLine, hfirst]
    have hblanks : Blanks first := fun c hc => hgap c (by simp [hc])
    have hlater : Blanks later := fun c hc => hgap c (by simp [hc])
    have hsplit : line ++ (first ++ '\n' :: later ++ rest) =
        (line ++ first) ++ '\n' :: (later ++ rest) := by simp
    have htrim : trim (line ++ first) = line := hline.trim_append_right hblanks
    rw [hsplit, rows, List.splitOn_append_cons_self_of_not_mem hfront,
      List.map_cons, htrim, List.filter_cons,
      if_pos hkeep]
    exact congrArg (line :: ·) (rows_blanks_append hlater rest)
  · obtain rfl : rest = [] := hbreak.resolve_left hmem
    have hwhole : '\n' ∉ line ++ gap := by simp [hline.oneLine, hmem]
    have htrim : trim (line ++ gap) = line := hline.trim_append_right hgap
    rw [List.append_nil, rows, List.splitOn_eq_singleton hwhole, List.map_singleton, htrim,
      List.filter_cons, if_pos hkeep]
    rfl

/-! ## Statements on one line -/

/-- White space as it stands on one line: one space if it held a line end. -/
def unbreak (gap : List Char) : List Char :=
  if '\n' ∈ gap then [' '] else gap

theorem not_mem_unbreak (gap : List Char) : '\n' ∉ unbreak gap := by
  unfold unbreak
  split
  · decide
  · assumption

theorem Room.Holds.unbreak {room : Room} {gap : List Char} (h : room.Holds gap) :
    room.Holds (unbreak gap) := by
  by_cases hmem : '\n' ∈ gap
  · rw [Script.unbreak, if_pos hmem]
    cases room with
    | tight =>
        obtain rfl : gap = [] := h
        cases hmem
    | loose => exact Blanks.singleton (by decide)
    | spaced => exact ⟨Blanks.singleton (by decide), List.cons_ne_nil _ _⟩
  · rwa [Script.unbreak, if_neg hmem]

/-- A statement and its form on one line: solid texts with white space between them,
and a semicolon at the end only. -/
inductive Unbroken : List Char → List Char → Prop
  | stop : Unbroken [';'] [';']
  | cons {text gap rest line : List Char} (htext : Solid text) (hopen : ';' ∉ text)
      (hgap : Blanks gap) (hrest : Unbroken rest line) :
      Unbroken (text ++ (gap ++ rest)) (text ++ (unbreak gap ++ line))

theorem isSuffixOf_singleton_iff {c : Char} {cs : List Char} :
    [c].isSuffixOf cs = true ↔ cs.getLast? = some c := by
  rw [List.isSuffixOf, List.reverse_singleton, isPrefixOf_singleton, List.head?_reverse, beq_iff_eq]

/-- A statement that has been begun and the text of a further line. -/
def continued (pending text : List Char) : List Char :=
  if pending.isEmpty then text else pending ++ ' ' :: text

theorem continued_continued (pending : List Char) {text : List Char} (htext : text ≠ [])
    (line : List Char) :
    continued (continued pending text) line = continued pending (text ++ ' ' :: line) := by
  cases pending with
  | nil => simp [continued, htext]
  | cons c pending => simp [continued]

theorem gather_cons_of_endsWith {line : List Char} (h : line.getLast? = some ';')
    (pending : List Char) (lines : List (List Char)) :
    gather pending (line :: lines) = continued pending line :: gather [] lines := by
  rw [gather, if_pos (isSuffixOf_singleton_iff.mpr h)]
  rfl

theorem gather_cons_of_not_endsWith {line : List Char} (h : line.getLast? ≠ some ';')
    (pending : List Char) (lines : List (List Char)) :
    gather pending (line :: lines) = gather (continued pending line) lines := by
  rw [gather, if_neg fun hends => h (isSuffixOf_singleton_iff.mp hends)]
  rfl

theorem solid_semicolon : Solid [';'] :=
  solid_singleton (by decide)

/-- Joining the lines of a statement gives its form on one line. The text `front`
stands before it on its first line. -/
theorem Unbroken.gather_rows {cs line : List Char} (h : Unbroken cs line) {gap later : List Char}
    (hgap : Blanks gap) (hbreak : '\n' ∈ gap ∨ later = []) {front : List Char}
    (hfront : Flush front) (honeLine : '\n' ∉ front) (pending : List Char) :
    gather pending (rows (front ++ (cs ++ (gap ++ later)))) =
      continued pending (front ++ line) :: gather [] (rows later) := by
  induction h generalizing front pending with
  | stop =>
      have hsolid : Solid (front ++ [';']) := solid_semicolon.append_left hfront honeLine
      rw [← List.append_assoc, hsolid.rows_append hgap hbreak]
      exact gather_cons_of_endsWith (by simp) pending _
  | @cons text between rest line htext hopen hbetween _ ih =>
      have hsolid : Solid (front ++ text) := htext.append_left hfront honeLine
      rw [List.append_assoc, List.append_assoc, ← List.append_assoc front,
        ← List.append_assoc front]
      by_cases hmem : '\n' ∈ between
      · -- The line ends here, and the rest of the statement is on later lines.
        have hlast : (front ++ text).getLast? ≠ some ';' := by
          rw [List.getLast?_append_of_ne_nil front htext.ne_nil]
          exact fun hlast => hopen (List.mem_of_mem_getLast? hlast)
        have hlater := ih flush_nil (by simp) (continued pending (front ++ text))
        rw [hsolid.rows_append hbetween (Or.inl hmem), gather_cons_of_not_endsWith hlast]
        rw [List.nil_append, List.nil_append, continued_continued pending hsolid.ne_nil] at hlater
        rw [hlater, unbreak, if_pos hmem]
        rfl
      · have hline : '\n' ∉ front ++ text ++ between := by
          simp [honeLine, htext.oneLine, hmem]
        have hflush : Flush (front ++ text ++ between) :=
          hsolid.flush.append hsolid.ne_nil between
        have hsame := ih hflush hline pending
        rw [unbreak, if_neg hmem]
        simpa only [List.append_assoc] using hsame

theorem Separator.solid_mark {separator : Separator} (hgap : separator ≠ .gap) :
    Solid separator.mark := by
  cases separator with
  | gap => exact absurd rfl hgap
  | colon | equals | comma | opening | closing =>
      exact solid_singleton (by decide)

/-- A separator on one line. -/
theorem Separator.Writes.exists_unbroken {separator : Separator} {between : List Char}
    (h : separator.Writes between) {text : List Char} (htext : Solid text) (hopen : ';' ∉ text)
    {rest line : List Char} (hrest : Unbroken rest line) :
    ∃ between', separator.Writes between' ∧ '\n' ∉ between' ∧
      Unbroken (text ++ (between ++ rest)) (text ++ (between' ++ line)) := by
  obtain ⟨lead, trail, hlead, htrail, rfl⟩ := h
  refine ⟨unbreak lead ++ (separator.mark ++ unbreak trail),
    ⟨unbreak lead, unbreak trail, hlead.unbreak, htrail.unbreak, rfl⟩, ?_, ?_⟩
  · have hmark : '\n' ∉ separator.mark := by cases separator <;> decide
    simp [hmark, not_mem_unbreak]
  · by_cases hgap : separator = .gap
    · subst hgap
      obtain rfl : trail = [] := htrail
      simpa [Separator.mark, unbreak] using Unbroken.cons htext hopen hlead.blanks hrest
    · have hmark : ';' ∉ separator.mark := by cases separator <;> decide
      have hmarked := Unbroken.cons (separator.solid_mark hgap) hmark htrail.blanks hrest
      simpa only [List.append_assoc] using Unbroken.cons htext hopen hlead.blanks hmarked

/-- Written pieces on one line are written pieces. -/
theorem Written.exists_unbroken {pieces : List Piece} {cs : List Char} (h : Written pieces cs)
    {rest line : List Char} (hrest : Unbroken rest line) :
    ∃ cs', Written pieces cs' ∧ '\n' ∉ cs' ∧ Unbroken (cs ++ rest) (cs' ++ line) := by
  induction h with
  | nil => exact ⟨[], .nil, by simp, hrest⟩
  | @cons token separator between later pieces hseparator _ ih =>
      obtain ⟨later', hlater', honeLine, hunbroken⟩ := ih
      obtain ⟨between', hwrites, hbetween, hwhole⟩ :=
        hseparator.exists_unbroken token.solid token.not_mem_semicolon hunbroken
      refine ⟨_, .cons hwrites hlater', ?_, ?_⟩
      · simp [token.solid.oneLine, hbetween, honeLine]
      · simpa only [List.append_assoc] using hwhole

/-- A written statement stands on one line as a written form of the same row. -/
theorem Row.WritesClosed.exists_unbroken {row : Row} {cs : List Char} (h : row.WritesClosed cs) :
    ∃ line, Unbroken cs line ∧ row.WritesClosed line ∧ '\n' ∉ line := by
  obtain ⟨_, lead, ⟨start, hstart, rfl⟩, hlead, rfl⟩ := h
  have hloose : Room.loose.Holds lead := hlead
  have hlast := Unbroken.cons row.token.solid row.token.not_mem_semicolon hlead .stop
  obtain ⟨start', hstart', honeLine, hunbroken⟩ := hstart.exists_unbroken hlast
  refine ⟨_, by simpa only [List.append_assoc] using hunbroken,
    ⟨_, _, ⟨start', hstart', rfl⟩, hloose.unbreak, by simp⟩, ?_⟩
  simp [honeLine, row.token.solid.oneLine, not_mem_unbreak]

/-! ## Scripts -/

/-- The texts that are a written form of a script: white space may stand before and
after every statement, and a line end stands between two of them. -/
inductive WrittenScript : List Row → List Char → Prop
  | nil {gap : List Char} (hgap : Blanks gap) : WrittenScript [] gap
  | last {row : Row} {lead text trail : List Char} (hlead : Blanks lead)
      (htext : row.WritesClosed text) (htrail : Blanks trail) :
      WrittenScript [row] (lead ++ (text ++ trail))
  | cons {row : Row} {later : List Row} {lead text trail rest : List Char}
      (hlead : Blanks lead) (htext : row.WritesClosed text) (htrail : Blanks trail)
      (hrest : WrittenScript later rest) :
      WrittenScript (row :: later) (lead ++ (text ++ (trail ++ '\n' :: rest)))

namespace WrittenScript

variable {statements : List Row} {script : List Char}

theorem not_mem_slash_of_blanks {gap : List Char} (hgap : Blanks gap) : '/' ∉ gap :=
  hgap.not_mem (by decide)

theorem unslashed (h : WrittenScript statements script) : Unslashed script := by
  induction h with
  | nil hgap => exact unslashed_of_not_mem (not_mem_slash_of_blanks hgap)
  | last hlead htext htrail =>
      have hslash := not_mem_slash_of_blanks htrail
      refine Unslashed.append_of_not_mem ?_ (not_mem_slash_of_blanks hlead)
      exact htext.unslashed.append (unslashed_of_not_mem hslash)
        fun hmem => hslash (List.mem_of_mem_head? hmem)
  | @cons row later lead text trail rest hlead htext htrail _ ih =>
      have hslash : '/' ∉ trail ++ ['\n'] := by simp [not_mem_slash_of_blanks htrail]
      refine Unslashed.append_of_not_mem ?_ (not_mem_slash_of_blanks hlead)
      rw [List.append_cons]
      apply htext.unslashed.append (ih.append_of_not_mem hslash)
      rw [List.head?_append_of_ne_nil _ (by simp)]
      exact fun hmem => hslash (List.mem_of_mem_head? hmem)

theorem seals (h : WrittenScript statements script) {reserved : Keyword}
    (hreserved : reserved ∈ reservedWords)
    (hne : ∀ row ∈ statements, .word reserved ∉ row.tokens) :
    Seals reserved.letters script := by
  have hblanks : ∀ {gap : List Char}, Blanks gap → Seals reserved.letters gap :=
    fun hgap => reserved.capital.seals_of_wordless hgap.wordless
  induction h with
  | nil hgap => exact hblanks hgap
  | last hlead htext htrail =>
      have hrow := htext.seals hreserved (hne _ List.mem_cons_self)
      exact (hblanks hlead).append (hrow.append (hblanks htrail))
  | @cons row later lead text trail rest hlead htext htrail _ ih =>
      have hrow := htext.seals hreserved (hne _ List.mem_cons_self)
      have hbreak : Blanks (trail ++ ['\n']) := htrail.append (Blanks.singleton (by decide))
      have hlater := ih fun other hother => hne other (List.mem_cons_of_mem row hother)
      rw [List.append_cons]
      exact (hblanks hlead).append (hrow.append ((hblanks hbreak).append hlater))

/-- The statement lines of a written script are written forms of its statements, one for
each. -/
theorem forall₂_statementLines (h : WrittenScript statements script)
    (hremark : ∀ row ∈ statements, .word .remark ∉ row.tokens) :
    List.Forall₂ (fun row line => row.WritesClosed line ∧ '\n' ∉ line) statements
      (statementLines script) := by
  have hlacks := (h.seals (by decide) hremark).lacks Keyword.remark.capital
  rw [statementLines_eq_gather_rows h.unslashed hlacks]
  clear hlacks hremark
  induction h with
  | @nil gap hgap =>
      have hrows : rows gap = [] := by simpa using rows_blanks_append hgap []
      rw [hrows]
      exact .nil
  | last hlead htext htrail =>
      obtain ⟨line, hunbroken, hline⟩ := htext.exists_unbroken
      have hgather := hunbroken.gather_rows htrail (Or.inr rfl) flush_nil (by simp) []
      rw [List.append_nil, List.nil_append] at hgather
      rw [rows_blanks_append hlead, hgather]
      exact .cons hline .nil
  | @cons row later lead text trail rest hlead htext htrail _ ih =>
      obtain ⟨line, hunbroken, hline⟩ := htext.exists_unbroken
      have hbreak : Blanks (trail ++ ['\n']) := htrail.append (Blanks.singleton (by decide))
      have hend : '\n' ∈ trail ++ ['\n'] ∨ rest = [] := Or.inl (by simp)
      have hgather := hunbroken.gather_rows hbreak hend flush_nil (by simp) []
      rw [List.nil_append] at hgather
      rw [rows_blanks_append hlead, List.append_cons, hgather]
      exact .cons hline ih

end WrittenScript

end QlikMigration.Script
