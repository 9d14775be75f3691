import QlikMigration.Proofs.SourcePaths

/-!
# What is cut from a line as a comment

A line is kept up to its first comment mark, which is two slashes or the word
`REM`. No mark is passed over because of where it stands: two slashes in a
bracketed path or in a quoted literal end the line as well, and so does a `REM`
behind other words. So a line is kept in full exactly if it has no mark at all.

What is cut can be the semicolon of the line. If the remains of the line end
in a semicolon, the statement ends there and the lines behind it begin a new one.
If they do not, the first statement of the lines behind it goes into the
statement of the line.
-/

namespace QlikMigration.Script

open QlikMigration.Text

/-! ## Marks -/

/-- What the text before a place in a line is still inside of. -/
inductive Enclosure
  | nothing
  | brackets
  | quotes (mark : Char)

namespace Enclosure

/-- An enclosure after one more character. -/
def next : Enclosure → Char → Enclosure
  | nothing, c =>
    if c = '[' then brackets else if c = '\'' ∨ c = '"' then quotes c else nothing
  | brackets, c => if c = ']' then nothing else brackets
  | quotes mark, c => if c = mark then nothing else quotes mark

/-- The enclosure at the end of a text. -/
def after (cs : List Char) : Enclosure :=
  cs.foldl next nothing

/-- Whether an enclosure is closed in the text that follows. -/
def closedIn : Enclosure → List Char → Bool
  | nothing, _ => false
  | brackets, rest => rest.contains ']'
  | quotes mark, rest => rest.contains mark

end Enclosure

/-- The first word of a text. -/
def firstWord (cs : List Char) : List Char :=
  wordRun (cs.dropWhile fun c => !isWord c)

/-- A line without a comment: two slashes stand only in brackets or quotes, and the line does not
begin with the word `REM`. -/
structure Commentless (line : List Char) : Prop where
  enclosed : ∀ front back, line = front ++ '/' :: '/' :: back →
    (Enclosure.after front).closedIn back = true
  begun : after? .remark (firstWord line) ≠ some []

theorem commentless_iff {line : List Char} :
    Commentless line ↔
      (∀ i < line.length, ['/', '/'].isPrefixOf (line.drop i) = true →
        (Enclosure.after (line.take i)).closedIn (line.drop (i + 2)) = true) ∧
      after? .remark (firstWord line) ≠ some [] := by
  refine ⟨fun h => ⟨fun i _ hslashes => ?_, h.begun⟩, fun h => ⟨fun front back hcut => ?_, h.2⟩⟩
  · obtain ⟨back, hback⟩ := List.isPrefixOf_iff_prefix.mp hslashes
    have hrest : line.drop (i + 2) = back := by rw [← List.drop_drop, ← hback]; rfl
    rw [hrest]
    refine h.enclosed _ _ ?_
    exact (List.take_append_drop i line).symm.trans (congrArg (line.take i ++ ·) hback.symm)
  · have hplace := h.1 front.length (by simp [hcut])
    have hslashes : ['/', '/'].isPrefixOf ('/' :: '/' :: back) = true :=
      List.isPrefixOf_iff_prefix.mpr ⟨back, rfl⟩
    rw [hcut, List.take_left, List.drop_left, ← List.drop_drop, List.drop_left] at hplace
    exact hplace hslashes

instance : DecidablePred Commentless :=
  fun _ => decidable_of_iff _ commentless_iff.symm

/-- A comment mark between two texts: two slashes, or `REM` as a word of its own. -/
def MarkAt (front rest : List Char) : Prop :=
  ['/', '/'] <+: rest ∨
    StartsWordAfter front ∧ ∃ tail, after? .remark rest = some tail ∧ startsWord tail = false

/-- A line that has neither two slashes nor the word `REM`, wherever they may stand. -/
structure Unmarked (line : List Char) : Prop where
  slashes : ¬ ['/', '/'] <:+: line
  remark : hasWord .remark line = false

theorem MarkAt.not_unmarked {front rest : List Char} (h : MarkAt front rest) :
    ¬ Unmarked (front ++ rest) := by
  rintro ⟨hslashes, hremark⟩
  rcases h with hmark | ⟨hstart, tail, htail, hend⟩
  · exact hslashes (hmark.isInfix.trans (List.suffix_append front rest).isInfix)
  · have hword : hasWord .remark (front ++ rest) = true :=
      hasWord_iff.mpr ⟨front, rest, tail, rfl, hstart, htail, hend⟩
    exact Bool.false_ne_true (hremark.symm.trans hword)

/-! ## The cut -/

/-- A text before a part goes to the first place where the part stands. -/
theorem exists_eq_before_append (part cs : List Char) :
    ∃ rest, cs = before part cs ++ rest ∧ (rest = [] ∨ part <+: rest) := by
  induction cs with
  | nil => exact ⟨[], rfl, Or.inl rfl⟩
  | cons c cs ih =>
      unfold before
      by_cases hpart : part.isPrefixOf (c :: cs) = true
      · rw [if_pos hpart]
        exact ⟨c :: cs, rfl, Or.inr (List.isPrefixOf_iff_prefix.mp hpart)⟩
      · obtain ⟨rest, hrest, hmark⟩ := ih
        rw [if_neg hpart]
        exact ⟨rest, by rw [List.cons_append, ← hrest], hmark⟩

theorem not_infix_before {part : List Char} (hne : part ≠ []) (cs : List Char) :
    ¬ part <:+: before part cs := by
  induction cs with
  | nil => simpa [before] using hne
  | cons c cs ih =>
      unfold before
      by_cases hpart : part.isPrefixOf (c :: cs) = true
      · rw [if_pos hpart]
        simpa using hne
      · rw [if_neg hpart, List.infix_cons_iff, not_or]
        refine ⟨fun hstart => hpart (List.isPrefixOf_iff_prefix.mpr ?_), ih⟩
        exact hstart.trans (List.cons_prefix_cons.mpr ⟨rfl, before_isPrefix part cs⟩)

theorem asWord?_eq_some_iff {next? : List Char → Option (List Char)} {prev : Option Char}
    {rest tail : List Char} :
    asWord? next? prev rest = some tail ↔
      wordMayStart prev = true ∧ next? rest = some tail ∧ startsWord tail = false := by
  unfold asWord?
  split
  · next hstart => simp [hstart, Option.filter_eq_some_iff]
  · next hstart => simp [hstart]

namespace Spells

variable {letters word : List Char}

theorem ne_nil (h : Spells letters word) (hcapital : Capital letters) : word ≠ [] := by
  cases h with
  | nil => exact absurd rfl hcapital.ne_nil
  | cons => exact List.cons_ne_nil _ _

/-- A word may not start right behind a word. -/
theorem not_startsWordAfter (h : Spells letters word) (hcapital : Capital letters)
    (front : List Char) : ¬ StartsWordAfter (front ++ word) := by
  intro hstart
  obtain ⟨start, last, hlast⟩ := List.eq_nil_or_concat word |>.resolve_left (h.ne_nil hcapital)
  have hword : isWord last = true :=
    List.all_eq_true.mp (h.all_isWord hcapital.upper) last (by simp [hlast])
  simp [StartsWordAfter, hlast, ← List.append_assoc, wordMayStart, hword] at hstart

end Spells

/-- A line without its remark has no word `REM`, and what is missing begins with one. -/
theorem exists_eq_withoutRemark_append (line : List Char) :
    hasWord .remark (withoutRemark line) = false ∧
      ∃ rest, line = withoutRemark line ++ rest ∧
        (rest = [] ∨ StartsWordAfter (withoutRemark line) ∧
          ∃ tail, after? .remark rest = some tail ∧ startsWord tail = false) := by
  rw [withoutRemark_eq_getD]
  cases hfound : findFirst? (asWord? (after? .remark)) line with
  | none =>
      refine ⟨?_, [], (List.append_nil line).symm, Or.inl rfl⟩
      rw [Option.map_none, Option.getD_none, hasWord_eq_isSome, hfound, Option.isSome_none]
  | some found =>
      obtain ⟨kept, tail⟩ := found
      obtain ⟨rest, rfl, hhit, hearlier⟩ := exists_of_findFirstAfter? hfound
      simp only [Option.or_none] at hhit hearlier
      obtain ⟨hstart, htail, hend⟩ := asWord?_eq_some_iff.mp hhit
      refine ⟨?_, rest, rfl, Or.inr ⟨hstart, tail, htail, hend⟩⟩
      rw [← Bool.not_eq_true, Option.map_some, Option.getD_some, hasWord_iff]
      rintro ⟨start, part, after, rfl, hword, hpart, hafter⟩
      obtain ⟨word, hspells, rfl⟩ := afterLetters?_eq_some_iff.mp hpart
      cases after with
      | nil =>
          -- The word would end where the one that was found starts.
          rw [List.append_nil] at hstart
          exact hspells.not_startsWordAfter Keyword.remark.capital start hstart
      | cons c after =>
          -- The word would have been found before.
          have hnone := hearlier start (word ++ c :: after) rfl (by simp)
          have hsome := asWord?_eq_some_iff.mpr
            ⟨hword, afterLetters?_append hpart rest, hafter⟩
          exact Option.some_ne_none _ (hsome.symm.trans hnone)

/-- A cleaned line is the trimmed text before its first mark. -/
theorem exists_cleanLine_eq (line : List Char) :
    ∃ kept lost, line = kept ++ lost ∧ cleanLine line = trim kept ∧ Unmarked kept ∧
      (lost = [] ∨ MarkAt kept lost) := by
  obtain ⟨after, hline, hslashes⟩ := exists_eq_before_append ['/', '/'] line
  obtain ⟨hremark, rest, hrest, hword⟩ := exists_eq_withoutRemark_append (before ['/', '/'] line)
  have hkept : Unmarked (withoutRemark (before ['/', '/'] line)) :=
    ⟨fun hslashes => not_infix_before (List.cons_ne_nil _ _) line
      (hslashes.trans (withoutRemark_isPrefix _).isInfix), hremark⟩
  refine ⟨_, rest ++ after, ?_, rfl, hkept, ?_⟩
  · rw [← List.append_assoc, ← hrest, ← hline]
  · rcases hword with rfl | ⟨hstart, tail, htail, hend⟩
    · exact hslashes.imp id Or.inl
    · refine Or.inr (Or.inr ⟨hstart, tail ++ after, afterLetters?_append htail after, ?_⟩)
      cases tail with
      | cons c tail => exact hend
      | nil =>
          rcases hslashes with rfl | ⟨back, rfl⟩
          · rfl
          · exact (by decide : isWord '/' = false)

/-! ## Lines without a comment -/

theorem Enclosure.after_of_blanks {cs : List Char} (h : Blanks cs) : after cs = nothing := by
  unfold after
  induction cs with
  | nil => rfl
  | cons c cs ih =>
      have hc : ∀ mark, isBlank mark = false → c ≠ mark :=
        fun mark hmark heq => h.not_mem hmark (heq ▸ List.mem_cons_self)
      have hnext : next nothing c = nothing := by
        simp [next, hc '[' (by decide), hc '\'' (by decide), hc '"' (by decide)]
      rw [List.foldl_cons, hnext]
      exact ih fun d hd => h d (List.mem_cons_of_mem c hd)

theorem firstWord_append {front word tail : List Char} (hfront : Wordless front)
    (hne : word ≠ []) (hword : word.all isWord = true) (htail : startsWord tail = false) :
    firstWord (front ++ (word ++ tail)) = word := by
  have hstart : (word ++ tail).dropWhile (fun c => !isWord c) = word ++ tail := by
    obtain ⟨c, word, rfl⟩ := List.exists_cons_of_ne_nil hne
    have hc : isWord c = true := List.all_eq_true.mp hword c List.mem_cons_self
    exact List.dropWhile_cons_of_neg (by simp [hc])
  rw [firstWord, List.dropWhile_append_of_pos (fun c hc => by simp [hfront c hc]), hstart,
    (wordRun_append hword htail).1]

theorem blanks_of_trim_eq_nil {cs : List Char} (h : trim cs = []) : Blanks cs := by
  obtain ⟨⟨front, back, rfl, hfront, hback⟩, -, -⟩ := trimOf_eq_iff.mp h
  exact Blanks.append hfront hback

/-- Something is left of a line without a comment, wherever it is cut. -/
theorem Commentless.trim_ne_nil {kept lost : List Char} (h : Commentless (kept ++ lost))
    (hmark : MarkAt kept lost) : trim kept ≠ [] := by
  intro hnil
  have hblanks := blanks_of_trim_eq_nil hnil
  rcases hmark with ⟨back, rfl⟩ | ⟨-, tail, htail, hend⟩
  · -- White space opens neither brackets nor quotes.
    have hclosed := h.enclosed kept back rfl
    rw [Enclosure.after_of_blanks hblanks] at hclosed
    cases hclosed
  · obtain ⟨word, hword, rfl⟩ := afterLetters?_eq_some_iff.mp htail
    have hfirst := firstWord_append hblanks.wordless (hword.ne_nil Keyword.remark.capital)
      (hword.all_isWord Keyword.remark.capital.upper) hend
    apply h.begun
    rw [hfirst]
    exact afterLetters?_eq_some_iff.mpr ⟨word, hword, (List.append_nil word).symm⟩

/-! ## What is written -/

/-- The characters of a text other than white space. -/
def ink (cs : List Char) : List Char :=
  cs.filter fun c => !isBlank c

@[simp]
theorem ink_append (front back : List Char) : ink (front ++ back) = ink front ++ ink back :=
  List.filter_append front back

theorem ink_eq_nil_iff {cs : List Char} : ink cs = [] ↔ Blanks cs := by
  simp [ink, Blanks]

theorem MarkAt.ink_ne_nil {front rest : List Char} (h : MarkAt front rest) : ink rest ≠ [] := by
  rw [Ne, ink_eq_nil_iff]
  intro hblanks
  rcases h with ⟨back, rfl⟩ | ⟨-, tail, htail, -⟩
  · exact hblanks.not_mem (by decide : isBlank '/' = false) List.mem_cons_self
  · obtain ⟨word, hword, rfl⟩ := afterLetters?_eq_some_iff.mp htail
    obtain ⟨c, word, rfl⟩ := List.exists_cons_of_ne_nil (hword.ne_nil Keyword.remark.capital)
    have hc := hword.flush_append Keyword.remark.capital tail c rfl
    exact hblanks.not_mem hc List.mem_cons_self

theorem ink_trim (cs : List Char) : ink (trim cs) = ink cs := by
  obtain ⟨front, back, hcs, hfront, hback⟩ := (stripped_trimOf isBlank cs).around
  have hlead : ink front = [] := ink_eq_nil_iff.mpr hfront
  have htrail : ink back = [] := ink_eq_nil_iff.mpr hback
  conv_rhs => rw [hcs, ink_append, ink_append, hlead, htrail, List.nil_append, List.append_nil]
  rfl

theorem ink_continued (pending text : List Char) :
    ink (continued pending text) = ink pending ++ ink text := by
  cases pending with
  | nil => rfl
  | cons c pending =>
      have hspace : ink (' ' :: text) = ink text := List.filter_cons_of_neg (by decide)
      rw [continued, List.isEmpty_cons, if_neg Bool.false_ne_true, ink_append, hspace]

/-- Gathering lines changes nothing but white space. -/
theorem ink_gather (pending : List Char) (lines : List (List Char)) :
    ink (gather pending lines).flatten = ink pending ++ ink lines.flatten := by
  induction lines generalizing pending with
  | nil => cases pending <;> simp [gather, ink]
  | cons line lines ih =>
      rw [List.flatten_cons, ink_append, ← List.append_assoc, ← ink_continued]
      by_cases hends : line.getLast? = some ';'
      · rw [gather_cons_of_endsWith hends, List.flatten_cons, ink_append, ih]
        rfl
      · rw [gather_cons_of_not_endsWith hends, ih]

/-! ## Statements on several lines -/

/-- The script of lines. -/
def scriptOf (lines : List (List Char)) : List Char :=
  ['\n'].intercalate lines

/-- The lines that are gathered: cleaned, and not empty then. -/
def cleanLines (lines : List (List Char)) : List (List Char) :=
  (lines.map cleanLine).filter fun line => !line.isEmpty

theorem cleanLines_append (front back : List (List Char)) :
    cleanLines (front ++ back) = cleanLines front ++ cleanLines back := by
  simp [cleanLines]

theorem cleanLines_cons {line : List Char} (h : cleanLine line ≠ []) (lines : List (List Char)) :
    cleanLines (line :: lines) = cleanLine line :: cleanLines lines := by
  simp [cleanLines, h]

theorem ne_nil_of_mem_cleanLines {line : List Char} {lines : List (List Char)}
    (h : line ∈ cleanLines lines) : line ≠ [] := by
  simpa using (List.mem_filter.mp h).2

theorem statementLines_scriptOf {lines : List (List Char)} (h : ∀ line ∈ lines, '\n' ∉ line) :
    statementLines (scriptOf lines) = gather [] (cleanLines lines) := by
  cases lines with
  | nil => rfl
  | cons line lines =>
      rw [statementLines, scriptOf, List.splitOn_intercalate _ h (List.cons_ne_nil line lines)]
      rfl

/-- The statements of a script have what its cleaned lines have. -/
theorem ink_statementLines {lines : List (List Char)} (h : ∀ line ∈ lines, '\n' ∉ line) :
    ink (statementLines (scriptOf lines)).flatten = ink (lines.map cleanLine).flatten := by
  rw [statementLines_scriptOf h, ink_gather, cleanLines, List.flatten_filter_not_isEmpty]
  rfl

/-- Lines leave behind the statements that end in them and one that is begun. -/
theorem exists_gather_append (front : List (List Char)) (pending : List Char) :
    ∃ earlier begun, ∀ back, gather pending (front ++ back) = earlier ++ gather begun back := by
  induction front generalizing pending with
  | nil => exact ⟨[], pending, fun back => rfl⟩
  | cons line front ih =>
      by_cases hends : line.getLast? = some ';'
      · obtain ⟨earlier, begun, h⟩ := ih []
        refine ⟨continued pending line :: earlier, begun, fun back => ?_⟩
        rw [List.cons_append, gather_cons_of_endsWith hends, h, List.cons_append]
      · obtain ⟨earlier, begun, h⟩ := ih (continued pending line)
        refine ⟨earlier, begun, fun back => ?_⟩
        rw [List.cons_append, gather_cons_of_not_endsWith hends, h]

/-- A text before a begun statement stays before it. -/
theorem gather_append_cons {lines : List (List Char)} {begun first : List Char}
    {later : List (List Char)} (hbegun : begun ≠ []) (h : gather begun lines = first :: later)
    (pending : List Char) :
    gather (pending ++ ' ' :: begun) lines = (pending ++ ' ' :: first) :: later := by
  induction lines generalizing begun with
  | nil =>
      have hnil : gather begun [] = [begun] := by simp [gather, hbegun]
      rw [hnil] at h
      cases h
      simp [gather]
  | cons line lines ih =>
      have hcontinued : continued (pending ++ ' ' :: begun) line =
          pending ++ ' ' :: continued begun line := by
        simp [continued, hbegun]
      by_cases hends : line.getLast? = some ';'
      · rw [gather_cons_of_endsWith hends] at h
        cases h
        rw [gather_cons_of_endsWith hends, hcontinued]
      · rw [gather_cons_of_not_endsWith hends] at h
        rw [gather_cons_of_not_endsWith hends, hcontinued]
        exact ih (by simp [continued, hbegun]) h

/-- A begun statement takes in the first statement of the lines that follow. -/
theorem gather_of_gather_nil {lines : List (List Char)} (hlines : ∀ line ∈ lines, line ≠ [])
    {first : List Char} {later : List (List Char)} (h : gather [] lines = first :: later)
    {pending : List Char} (hpending : pending ≠ []) :
    gather pending lines = (pending ++ ' ' :: first) :: later := by
  have hcontinued : ∀ line, continued pending line = pending ++ ' ' :: line :=
    fun line => by simp [continued, hpending]
  cases lines with
  | nil => cases h
  | cons line lines =>
      by_cases hends : line.getLast? = some ';'
      · rw [gather_cons_of_endsWith hends] at h
        cases h
        rw [gather_cons_of_endsWith hends, hcontinued]
        rfl
      · rw [gather_cons_of_not_endsWith hends] at h
        rw [gather_cons_of_not_endsWith hends, hcontinued]
        exact gather_append_cons (hlines line List.mem_cons_self) h pending

theorem suffix_continued (pending text : List Char) : text <:+ continued pending text := by
  cases pending with
  | nil => exact List.suffix_refl text
  | cons c pending => exact (List.suffix_cons ' ' text).trans (List.suffix_append _ _)

/-! ## A line among other lines -/

section Among

variable (front : List (List Char)) (line : List Char) (back : List (List Char))

/-- How a text ends the statements of the lines up to it, and what becomes of the statements of the
lines behind. -/
structure EndsStatements (text : List Char) (earlier : List (List Char)) (statement : List Char) :
    Prop where
  upTo : statementLines (scriptOf (front ++ [line])) = earlier ++ [statement]
  last : text <:+ statement
  apart : text.getLast? = some ';' →
    statementLines (scriptOf (front ++ line :: back)) =
      earlier ++ statement :: statementLines (scriptOf back)
  merged : text.getLast? ≠ some ';' → ∀ first later,
    statementLines (scriptOf back) = first :: later →
      statementLines (scriptOf (front ++ line :: back)) =
        earlier ++ (statement ++ ' ' :: first) :: later

/-- What becomes of a line between other lines: it is cut at its first mark, and what remains is
what the line has in the statements. -/
structure LineRun (kept lost : List Char) : Prop where
  cut : line = kept ++ lost
  unmarked : Unmarked kept
  mark : lost ≠ [] → MarkAt kept lost ∧ trim kept ≠ []
  remains : ink (statementLines (scriptOf (front ++ line :: back))).flatten =
    ink (statementLines (scriptOf front)).flatten ++
      (ink kept ++ ink (statementLines (scriptOf back)).flatten)
  full : ink (statementLines (scriptOf (front ++ line :: back))).flatten =
      ink (statementLines (scriptOf front)).flatten ++
        (ink line ++ ink (statementLines (scriptOf back)).flatten) ↔
    Unmarked line
  ends : trim kept ≠ [] →
    ∃ earlier statement, EndsStatements front line back (trim kept) earlier statement

end Among

section Runs

variable {front back : List (List Char)} {line : List Char}

theorem exists_endsStatements (hlines : ∀ other ∈ front ++ line :: back, '\n' ∉ other)
    (hline : cleanLine line ≠ []) :
    ∃ earlier statement, EndsStatements front line back (cleanLine line) earlier statement := by
  rw [List.forall_mem_append, List.forall_mem_cons] at hlines
  obtain ⟨hfront, hnewline, hback⟩ := hlines
  obtain ⟨earlier, begun, hgather⟩ := exists_gather_append (cleanLines front) []
  have hall : ∀ {others : List (List Char)}, (∀ other ∈ others, '\n' ∉ other) →
      statementLines (scriptOf (front ++ line :: others)) =
        earlier ++ gather begun (cleanLine line :: cleanLines others) := by
    intro others hothers
    rw [statementLines_scriptOf
      (List.forall_mem_append.mpr ⟨hfront, List.forall_mem_cons.mpr ⟨hnewline, hothers⟩⟩),
      cleanLines_append, cleanLines_cons hline, hgather]
  have hne : continued begun (cleanLine line) ≠ [] :=
    fun hnil => hline (List.suffix_nil.mp (hnil ▸ suffix_continued begun (cleanLine line)))
  refine ⟨earlier, continued begun (cleanLine line), ?_, suffix_continued _ _, ?_, ?_⟩
  · rw [hall (List.forall_mem_nil _)]
    by_cases hends : (cleanLine line).getLast? = some ';'
    · rw [gather_cons_of_endsWith hends]
      rfl
    · rw [gather_cons_of_not_endsWith hends]
      simp [cleanLines, gather, hne]
  · intro hends
    rw [hall hback, gather_cons_of_endsWith hends, statementLines_scriptOf hback]
  · intro hends first later hfirst
    rw [statementLines_scriptOf hback] at hfirst
    rw [hall hback, gather_cons_of_not_endsWith hends,
      gather_of_gather_nil (fun other => ne_nil_of_mem_cleanLines) hfirst hne]

/-- A line without a comment is kept in full exactly if it has no mark, not even in brackets or
quotes or behind other words. Otherwise it is cut at its first mark, and something is left of it. A
semicolon at the end of what is left ends the statement; without it, the next statement goes into
the same one. -/
theorem exists_lineRun_of_commentless (hlines : ∀ other ∈ front ++ line :: back, '\n' ∉ other)
    (hline : Commentless line) : ∃ kept lost, LineRun front line back kept lost := by
  obtain ⟨kept, lost, hcut, hclean, hunmarked, hmark⟩ := exists_cleanLine_eq line
  have hremains : ink (statementLines (scriptOf (front ++ line :: back))).flatten =
      ink (statementLines (scriptOf front)).flatten ++
        (ink kept ++ ink (statementLines (scriptOf back)).flatten) := by
    rw [ink_statementLines hlines]
    rw [List.forall_mem_append, List.forall_mem_cons] at hlines
    rw [ink_statementLines hlines.1, ink_statementLines hlines.2.2, List.map_append,
      List.map_cons, hclean]
    simp [ink_trim]
  refine ⟨kept, lost, hcut, hunmarked, ?_, hremains, ?_, ?_⟩
  · intro hne
    have hfound := hmark.resolve_left hne
    exact ⟨hfound, Commentless.trim_ne_nil (hcut ▸ hline) hfound⟩
  · rw [hremains, List.append_cancel_left_eq, List.append_cancel_right_eq, hcut]
    rcases hmark with rfl | hfound
    · simpa using hunmarked
    · simp [hfound.ink_ne_nil, hfound.not_unmarked]
  · intro hne
    rw [← hclean] at hne ⊢
    exact exists_endsStatements hlines hne

end Runs

/-- A load from a path with two slashes in it. -/
def libraryLoad : List Char :=
  "LOAD a FROM [lib://data/a.csv];".toList

/-- The load is cut in its path. Its semicolon is lost, and the next load goes into its
statement. -/
theorem exists_lineRun_of_libraryLoad :
    Commentless libraryLoad ∧ ¬ Unmarked libraryLoad ∧
      statementLines (scriptOf ["Sales:".toList, libraryLoad, "LOAD b FROM b.csv;".toList]) =
        ["Sales: LOAD a FROM [lib: LOAD b FROM b.csv;".toList] ∧
      ∃ kept lost,
        LineRun ["Sales:".toList] libraryLoad ["LOAD b FROM b.csv;".toList] kept lost := by
  have hcommentless : Commentless libraryLoad := by decide +kernel
  have hmarked : ['/', '/'] <:+: libraryLoad :=
    ⟨"LOAD a FROM [lib:".toList, "data/a.csv];".toList, by decide⟩
  exact ⟨hcommentless, fun h => h.slashes hmarked, by decide +kernel,
    exists_lineRun_of_commentless (by decide +kernel) hcommentless⟩

end QlikMigration.Script
