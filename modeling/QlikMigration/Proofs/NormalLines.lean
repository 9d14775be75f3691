import QlikMigration.Proofs.Comments
import QlikMigration.Proofs.FixedTexts

/-!
# The normal form of statement lines

The statement lines of a script are in a normal form. Each is a text on one line
with no white space around it and no comment mark in it, and each but the last
ends in a semicolon. Joining the lines of a statement brings no mark back: a
space stands between them, and neither two slashes nor a word reach across it.

The lists in normal form are exactly those that are given back when they are
written one to a line and read again. So a second reading changes nothing.
-/

namespace QlikMigration.Spark

open QlikMigration.Text QlikMigration.Script

/-! ## Words of a text -/

namespace Standing

variable {cs front word rest : List Char}

/-- A word keeps its place if no word is put beside the text. -/
theorem pad (h : Standing cs front word rest) {lead trail : List Char}
    (hlead : Wordless lead) (htrail : Wordless trail) :
    Standing (lead ++ (cs ++ trail)) (lead ++ front) word (rest ++ trail) where
  cut := by simp [h.cut]
  before := by
    intro c hc
    rcases List.eq_nil_or_concat front with rfl | ⟨start, last, rfl⟩
    · rw [List.append_nil] at hc
      exact hlead c (List.mem_of_mem_getLast? hc)
    · rw [List.getLast?_append_of_ne_nil lead (by simp)] at hc
      exact h.before c hc
  letters := h.letters
  after := by
    cases rest with
    | nil =>
        cases trail with
        | nil => rfl
        | cons c trail => exact htrail c List.mem_cons_self
    | cons c rest => exact h.after

/-- A word of two texts with a separator between them is a word of one of the two. -/
theorem of_append_cons {first second : List Char} {c : Char} (hc : isWord c = false)
    (h : Standing (first ++ c :: second) front word rest) :
    (∃ more, Standing first front word more) ∨ ∃ more, Standing second more word rest := by
  have hword : c ∉ word := fun hmem => Bool.false_ne_true (hc.symm.trans (h.letters c hmem))
  rcases List.append_eq_append_iff.mp h.cut with ⟨more, rfl, hrest⟩ | ⟨more, rfl, hrest⟩
  · cases more with
    | nil =>
        -- The word would begin with the separator, so it has no letters at all.
        obtain rfl : word = [] := by
          by_contra hne
          obtain ⟨d, word, rfl⟩ := List.exists_cons_of_ne_nil hne
          cases hrest
          exact hword List.mem_cons_self
        exact Or.inl ⟨[], by simp, by simpa using h.before, h.letters, rfl⟩
    | cons d more =>
        obtain ⟨rfl, hsecond⟩ := List.cons_eq_cons.mp hrest
        refine Or.inr ⟨more, hsecond, fun e he => h.before e ?_, h.letters, h.after⟩
        rw [List.getLast?_append_of_ne_nil first (List.cons_ne_nil c more), List.getLast?_cons,
          Option.mem_def.mp he]
        rfl
  · rcases List.append_eq_append_iff.mp hrest with ⟨after, rfl, rfl⟩ | ⟨after, rfl, hafter⟩
    · refine Or.inl ⟨after, rfl, h.before, h.letters, ?_⟩
      cases after with
      | nil => rfl
      | cons d after => exact h.after
    · cases after with
      | nil => exact Or.inl ⟨[], by simp, h.before, by simpa using h.letters, rfl⟩
      | cons d after =>
          cases hafter
          exact absurd (List.mem_append_right more List.mem_cons_self) hword

end Standing

end QlikMigration.Spark

namespace QlikMigration.Script

open QlikMigration.Text
open QlikMigration.Spark (Standing)

/-- The word `REM` stands in a text, in any case. -/
def Remarked (cs : List Char) : Prop :=
  ∃ front word rest, Standing cs front word rest ∧ word.map Char.toUpper = ['R', 'E', 'M']

/-- Letters that have one capital form only are spelled by the words with these capitals. -/
theorem spells_iff_map_toUpper {letters word : List Char}
    (h : ∀ letter ∈ letters, letter ≠ 'S' ∧ letter ≠ 'K' ∧ letter ≠ 'I') :
    Spells letters word ↔ word.map Char.toUpper = letters := by
  refine spells_iff fun letter hletter c _ => ?_
  obtain ⟨hs, hk, hi⟩ := h letter hletter
  simp [letterMatches, beq_false_of_ne hs, beq_false_of_ne hk, beq_false_of_ne hi]

theorem hasWord_remark_iff {cs : List Char} : hasWord .remark cs = true ↔ Remarked cs := by
  have hletters : ∀ letter ∈ Keyword.remark.letters,
      letter ≠ 'S' ∧ letter ≠ 'K' ∧ letter ≠ 'I' := by simp [Keyword.letters]
  rw [hasWord_iff]
  constructor
  · rintro ⟨front, part, rest, rfl, hstart, hpart, hrest⟩
    obtain ⟨word, hword, rfl⟩ := afterLetters?_eq_some_iff.mp hpart
    have hall := List.all_eq_true.mp (hword.all_isWord Keyword.remark.capital.upper)
    exact ⟨front, word, rest, ⟨rfl, startsWordAfter_iff.mp hstart, hall, hrest⟩,
      (spells_iff_map_toUpper hletters).mp hword⟩
  · rintro ⟨front, word, rest, hstanding, hword⟩
    exact ⟨front, word ++ rest, rest, hstanding.cut, startsWordAfter_iff.mpr hstanding.before,
      afterLetters?_eq_some_iff.mpr ⟨word, (spells_iff_map_toUpper hletters).mpr hword, rfl⟩,
      hstanding.after⟩

theorem Remarked.of_append_cons {first second : List Char} {c : Char} (hc : isWord c = false)
    (h : Remarked (first ++ c :: second)) : Remarked first ∨ Remarked second := by
  obtain ⟨front, word, rest, hstanding, hword⟩ := h
  rcases hstanding.of_append_cons hc with ⟨more, hfirst⟩ | ⟨more, hsecond⟩
  · exact Or.inl ⟨front, word, more, hfirst, hword⟩
  · exact Or.inr ⟨more, word, rest, hsecond, hword⟩

/-! ## One line -/

/-- A statement line in normal form: some text on one line, with no white space at either end, no
two slashes and no word `REM`. -/
structure NormalLine (line : List Char) : Prop extends Solid line where
  slashes : ¬ ['/', '/'] <:+: line
  remark : ¬ Remarked line

theorem unmarked_iff {line : List Char} :
    Unmarked line ↔ ¬ ['/', '/'] <:+: line ∧ ¬ Remarked line := by
  rw [← hasWord_remark_iff, Bool.not_eq_true]
  exact ⟨fun h => ⟨h.slashes, h.remark⟩, fun h => ⟨h.1, h.2⟩⟩

theorem unslashed_of_no_pair {cs : List Char} (h : ¬ ['/', '/'] <:+: cs) : Unslashed cs := by
  refine List.isChain_iff_forall_rel_of_append_cons_cons.mpr ?_
  rintro c d front back rfl ⟨rfl, rfl⟩
  exact h ⟨front, back, by simp⟩

/-- What is left of a line after cleaning is in normal form. -/
theorem normalLine_cleanLine {line : List Char} (hline : '\n' ∉ line)
    (hne : cleanLine line ≠ []) : NormalLine (cleanLine line) := by
  obtain ⟨kept, lost, rfl, hclean, hunmarked, -⟩ := exists_cleanLine_eq line
  obtain ⟨hslashes, hremark⟩ := unmarked_iff.mp hunmarked
  rw [hclean] at hne ⊢
  have hstripped : Stripped isBlank kept (trim kept) := stripped_trimOf isBlank kept
  obtain ⟨lead, trail, hkept, hlead, htrail⟩ := hstripped.around
  have hpart : trim kept <:+: kept := ⟨lead, trail, by rw [List.append_assoc]; exact hkept.symm⟩
  refine ⟨⟨hne, hstripped.head, hstripped.last, ?_⟩, fun h => hslashes (h.trans hpart), ?_⟩
  · exact fun hmem => hline (List.mem_append_left lost (hpart.subset hmem))
  · rintro ⟨front, word, rest, hstanding, hword⟩
    have hpadded := hstanding.pad (Blanks.wordless hlead) (Blanks.wordless htrail)
    rw [← hkept] at hpadded
    exact hremark ⟨_, word, _, hpadded, hword⟩

/-- Cleaning leaves a line in normal form as it is. -/
theorem NormalLine.cleanLine_eq_self {line : List Char} (h : NormalLine line) :
    cleanLine line = line := by
  have hremark : hasWord .remark line = false :=
    (unmarked_iff.mpr ⟨h.slashes, h.remark⟩).remark
  rw [cleanLine, (unslashed_of_no_pair h.slashes).before_eq_self, withoutRemark_eq_self hremark,
    h.trim_eq_self]

/-- A line in normal form behind a statement that was begun keeps it in normal form. -/
theorem NormalLine.continued {pending line : List Char} (hline : NormalLine line)
    (hpending : pending ≠ [] → NormalLine pending) : NormalLine (continued pending line) := by
  by_cases hne : pending = []
  · subst hne
    exact hline
  · have hbegun := hpending hne
    have hjoined : Script.continued pending line = (pending ++ [' ']) ++ line := by
      simp [Script.continued, hne]
    have hsplit : (pending ++ [' ']) ++ line = pending ++ ' ' :: line := by simp
    rw [hjoined]
    refine ⟨hline.toSolid.append_left (hbegun.flush.append hne [' ']) ?_, ?_, ?_⟩
    · simpa using hbegun.oneLine
    · rw [hsplit]
      intro hslashes
      rcases infix_or_infix_of_not_mem (by decide) hslashes with hfirst | hsecond
      · exact hbegun.slashes hfirst
      · exact hline.slashes hsecond
    · rw [hsplit]
      intro hremark
      rcases hremark.of_append_cons (by decide) with hfirst | hsecond
      · exact hbegun.remark hfirst
      · exact hline.remark hsecond

/-! ## All lines -/

/-- Statement lines in normal form: each of them is, and only the last may lack a semicolon at its
end. -/
structure NormalForm (lines : List (List Char)) : Prop where
  each : ∀ line ∈ lines, NormalLine line
  closed : ∀ line ∈ lines.dropLast, line.getLast? = some ';'

theorem NormalForm.cons {line : List Char} {lines : List (List Char)} (hline : NormalLine line)
    (hends : line.getLast? = some ';') (h : NormalForm lines) : NormalForm (line :: lines) where
  each := List.forall_mem_cons.mpr ⟨hline, h.each⟩
  closed := by
    cases lines with
    | nil => exact List.forall_mem_nil _
    | cons next lines => exact List.forall_mem_cons.mpr ⟨hends, h.closed⟩

/-- Gathering keeps the normal form of the lines. -/
theorem normalForm_gather {lines : List (List Char)} (hlines : ∀ line ∈ lines, NormalLine line)
    {pending : List Char} (hpending : pending ≠ [] → NormalLine pending) :
    NormalForm (gather pending lines) := by
  induction lines generalizing pending with
  | nil =>
      by_cases hne : pending = []
      · subst hne
        exact ⟨List.forall_mem_nil _, List.forall_mem_nil _⟩
      · have hlast : gather pending [] = [pending] := by simp [gather, hne]
        rw [hlast]
        exact ⟨List.forall_mem_singleton.mpr (hpending hne), List.forall_mem_nil _⟩
  | cons line lines ih =>
      rw [List.forall_mem_cons] at hlines
      have hcontinued := hlines.1.continued hpending
      by_cases hends : line.getLast? = some ';'
      · rw [gather_cons_of_endsWith hends]
        refine .cons hcontinued ?_ (ih hlines.2 (absurd rfl))
        obtain ⟨front, hfront⟩ := suffix_continued pending line
        rw [← hfront, List.getLast?_append_of_ne_nil front hlines.1.ne_nil, hends]
      · rw [gather_cons_of_not_endsWith hends]
        exact ih hlines.2 fun _ => hcontinued

theorem not_mem_of_mem_splitOn {delimiter : Char} {piece cs : List Char}
    (h : piece ∈ List.splitOn delimiter cs) : delimiter ∉ piece := by
  induction cs generalizing piece with
  | nil =>
      obtain rfl : piece = [] := by simpa using h
      exact List.not_mem_nil
  | cons c cs ih =>
      rw [List.splitOn_cons_eq_if_modifyHead] at h
      split at h
      · rcases List.mem_cons.mp h with rfl | hlater
        · exact List.not_mem_nil
        · exact ih hlater
      · next hc =>
          have hne : delimiter ≠ c := fun heq => hc (beq_iff_eq.mpr heq.symm)
          cases hsplit : List.splitOn delimiter cs with
          | nil => exact absurd hsplit (List.splitOn_ne_nil _ cs)
          | cons first later =>
              rw [hsplit] at ih h
              rcases List.mem_cons.mp h with rfl | hlater
              · exact List.not_mem_cons_of_ne_of_not_mem hne (ih List.mem_cons_self)
              · exact ih (List.mem_cons_of_mem first hlater)

theorem normalForm_statementLines (script : List Char) : NormalForm (statementLines script) := by
  refine normalForm_gather (fun line hline => ?_) (absurd rfl)
  obtain ⟨hmem, hne⟩ := List.mem_filter.mp hline
  obtain ⟨piece, hpiece, rfl⟩ := List.mem_map.mp hmem
  exact normalLine_cleanLine (not_mem_of_mem_splitOn hpiece) (by simpa using hne)

namespace NormalForm

variable {lines : List (List Char)}

theorem gather_eq_self (h : NormalForm lines) : gather [] lines = lines := by
  induction lines with
  | nil => rfl
  | cons line lines ih =>
      have hline := h.each line List.mem_cons_self
      cases lines with
      | nil =>
          by_cases hends : line.getLast? = some ';'
          · rw [gather_cons_of_endsWith hends]
            rfl
          · rw [gather_cons_of_not_endsWith hends]
            simp [gather, Script.continued, hline.ne_nil]
      | cons next lines =>
          rw [gather_cons_of_endsWith (h.closed line List.mem_cons_self),
            ih ⟨fun other hother => h.each other (List.mem_cons_of_mem line hother),
              fun other hother => h.closed other (List.mem_cons_of_mem line hother)⟩]
          rfl

theorem cleanLines_eq_self (h : NormalForm lines) : cleanLines lines = lines := by
  have hclean : lines.map cleanLine = lines :=
    (List.map_congr_left fun line hline => (h.each line hline).cleanLine_eq_self).trans
      (List.map_id' lines)
  rw [cleanLines, hclean, List.filter_eq_self]
  exact fun line hline => by simpa using (h.each line hline).ne_nil

/-- Lines in normal form are read back as they are. -/
theorem statementLines_eq_self (h : NormalForm lines) :
    statementLines (scriptOf lines) = lines := by
  rw [statementLines_scriptOf fun line hline => (h.each line hline).oneLine, h.cleanLines_eq_self,
    h.gather_eq_self]

end NormalForm

/-- Lists of lines are in normal form exactly if reading gives them back. -/
theorem normalForm_iff {lines : List (List Char)} :
    NormalForm lines ↔ statementLines (scriptOf lines) = lines :=
  ⟨NormalForm.statementLines_eq_self, fun h => h ▸ normalForm_statementLines (scriptOf lines)⟩

/-- The statement lines of a script are in normal form, and reading them again gives the same
lines. The lists that are read back as they are, are those in normal form. -/
theorem normalForm_of_statementLines (script : List Char) :
    NormalForm (statementLines script) ∧
      statementLines (scriptOf (statementLines script)) = statementLines script ∧
      ∀ lines, NormalForm lines ↔ statementLines (scriptOf lines) = lines :=
  ⟨normalForm_statementLines script, (normalForm_statementLines script).statementLines_eq_self,
    fun _ => normalForm_iff⟩

end QlikMigration.Script
