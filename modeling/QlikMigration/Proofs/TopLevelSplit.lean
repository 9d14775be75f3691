import QlikMigration.Script.TopLevel
import QlikMigration.Text.Cut

/-!
# Splitting at the top level and joining again

A scan of a text keeps the depth of parentheses and the quote that is open. A
delimiter cuts where the scan is outside of both. The parts of a text are
determined by what they are: no part has a delimiter that cuts, every part but
the last ends outside of parentheses and quotes, and joined they give the text.

An empty part after the last delimiter is not listed. So one delimiter is
missing from the joined parts exactly if the text ends in one that cuts, and
every list whose last part is not empty is found again from its joined text.
-/

namespace QlikMigration.Script

open QlikMigration.Text

/-! ## Scans -/

namespace Nesting

/-- What one character does to the depth and the open quote. -/
inductive Reads : Nesting → Char → Nesting → Prop
  | openQuote (depth : Int) {mark : Char} (h : mark = '"' ∨ mark = '\'') :
      Reads ⟨depth, none⟩ mark ⟨depth, some mark⟩
  | closeQuote (depth : Int) (mark : Char) : Reads ⟨depth, some mark⟩ mark ⟨depth, none⟩
  | quoted (depth : Int) {mark c : Char} (h : c ≠ mark) :
      Reads ⟨depth, some mark⟩ c ⟨depth, some mark⟩
  | openParenthesis (depth : Int) : Reads ⟨depth, none⟩ '(' ⟨depth + 1, none⟩
  | closeParenthesis (depth : Int) : Reads ⟨depth, none⟩ ')' ⟨depth - 1, none⟩
  | plain (depth : Int) {c : Char} (h : c ∉ ['"', '\'', '(', ')']) :
      Reads ⟨depth, none⟩ c ⟨depth, none⟩

/-- A scan of a text from one state to another. -/
inductive Scans : Nesting → List Char → Nesting → Prop
  | nil (nesting : Nesting) : Scans nesting [] nesting
  | cons {nesting next last : Nesting} {c : Char} {cs : List Char} (hc : Reads nesting c next)
      (hcs : Scans next cs last) : Scans nesting (c :: cs) last

theorem reads_step (nesting : Nesting) (c : Char) : Reads nesting c (nesting.step c) := by
  obtain ⟨depth, quote⟩ := nesting
  cases quote with
  | some mark =>
      by_cases hc : c = mark
      · subst hc
        simpa [step] using Reads.closeQuote depth c
      · simpa [step, hc] using Reads.quoted depth hc
  | none =>
      by_cases hquote : c = '"' ∨ c = '\''
      · simpa [step, hquote] using Reads.openQuote depth hquote
      · by_cases hopen : c = '('
        · subst hopen
          exact Reads.openParenthesis depth
        · by_cases hclose : c = ')'
          · subst hclose
            exact Reads.closeParenthesis depth
          · have hplain : c ∉ ['"', '\'', '(', ')'] := by simp_all
            simpa [step, hquote, hopen, hclose] using Reads.plain depth hplain

theorem Reads.step_eq {nesting next : Nesting} {c : Char} (h : Reads nesting c next) :
    nesting.step c = next := by
  cases h with
  | openQuote depth h => simp [step, h]
  | closeQuote depth mark => simp [step]
  | quoted depth h => simp [step, h]
  | openParenthesis depth => rfl
  | closeParenthesis depth => rfl
  | plain depth h =>
      simp only [List.mem_cons, List.not_mem_nil, or_false, not_or] at h
      simp [step, h]

/-- The scan of a text is the one that is computed. -/
theorem scans_iff {nesting last : Nesting} {cs : List Char} :
    Scans nesting cs last ↔ nesting.run cs = last := by
  constructor
  · intro h
    induction h with
    | nil => rfl
    | cons hc _ ih => rw [run, List.foldl_cons, hc.step_eq]; exact ih
  · rintro rfl
    induction cs generalizing nesting with
    | nil => exact .nil nesting
    | cons c cs ih => exact .cons (reads_step nesting c) ih

theorem run_append (nesting : Nesting) (front back : List Char) :
    nesting.run (front ++ back) = (nesting.run front).run back :=
  List.foldl_append

end Nesting

/-! ## Parts -/

/-- No delimiter in a text cuts it, if the scan begins in the given state. -/
def UncutFrom (delimiter : Char) (nesting : Nesting) (cs : List Char) : Prop :=
  ∀ front back, cs = front ++ delimiter :: back → ¬ nesting.Scans front .neutral

/-- A text ends in a delimiter that cuts, if the scan begins in the given state. -/
def EndsInCut (delimiter : Char) (nesting : Nesting) (cs : List Char) : Prop :=
  ∃ front, cs = front ++ [delimiter] ∧ nesting.Scans front .neutral

/-- The parts of a text whose scan begins in the given state. -/
inductive Divided (delimiter : Char) : Nesting → List (List Char) → Prop
  | last {nesting : Nesting} {part : List Char} (huncut : UncutFrom delimiter nesting part) :
      Divided delimiter nesting [part]
  | cons {nesting : Nesting} {part : List Char} {parts : List (List Char)}
      (huncut : UncutFrom delimiter nesting part) (hends : nesting.Scans part .neutral)
      (hparts : Divided delimiter .neutral parts) : Divided delimiter nesting (part :: parts)

section Delimiter

variable {delimiter : Char}

theorem Divided.ne_nil {nesting : Nesting} {parts : List (List Char)}
    (h : Divided delimiter nesting parts) : parts ≠ [] := by
  cases h with
  | last => exact List.cons_ne_nil _ _
  | cons => exact List.cons_ne_nil _ _

theorem Divided.eq_of_intercalate_eq_nil {nesting : Nesting} {parts : List (List Char)}
    (h : Divided delimiter nesting parts) (hnil : [delimiter].intercalate parts = []) :
      parts = [[]] := by
  cases h with
  | last => rw [List.intercalate_singleton] at hnil; exact congrArg (fun part => [part]) hnil
  | cons _ _ hparts =>
      rw [List.intercalate_cons_of_ne_nil hparts.ne_nil] at hnil
      simp at hnil

theorem uncutFrom_nil (delimiter : Char) (nesting : Nesting) : UncutFrom delimiter nesting [] :=
  fun front back h => absurd h (by simp)

theorem uncutFrom_cons_iff {nesting : Nesting} {c : Char} {cs : List Char} :
    UncutFrom delimiter nesting (c :: cs) ↔
      ¬ (nesting = .neutral ∧ c = delimiter) ∧ UncutFrom delimiter (nesting.step c) cs := by
  constructor
  · intro h
    refine ⟨?_, fun front back hcs hscan => ?_⟩
    · rintro ⟨rfl, rfl⟩
      exact h [] cs rfl (.nil _)
    · exact h (c :: front) back (by rw [hcs]; rfl) (.cons (nesting.reads_step c) hscan)
  · rintro ⟨hc, hcs⟩ front back heq hscan
    cases hscan with
    | nil =>
        cases heq
        exact hc ⟨rfl, rfl⟩
    | cons hread hscan =>
        cases heq
        rw [← hread.step_eq] at hscan
        exact hcs _ back rfl hscan

/-- A text that is cut nowhere does not end in a cut. -/
theorem UncutFrom.not_endsInCut {nesting : Nesting} {cs : List Char}
    (h : UncutFrom delimiter nesting cs) : ¬ EndsInCut delimiter nesting cs := by
  rintro ⟨front, hcs, hscan⟩
  exact h front [] hcs hscan

/-- A text behind a cut ends in one if it is empty, or if it does so itself. -/
theorem endsInCut_append_cons_iff (hdelimiter : delimiter ∉ ['"', '\'', '(', ')'])
    {nesting : Nesting} {part rest : List Char} (hpart : nesting.Scans part .neutral) :
    EndsInCut delimiter nesting (part ++ delimiter :: rest) ↔
      rest = [] ∨ EndsInCut delimiter .neutral rest := by
  have hcut : nesting.run (part ++ [delimiter]) = .neutral := by
    rw [Nesting.run_append, Nesting.scans_iff.mp hpart]
    exact (Nesting.Reads.plain 0 hdelimiter).step_eq
  constructor
  · rintro ⟨front, hfront, hscan⟩
    rcases List.eq_nil_or_concat rest with rfl | ⟨start, last, rfl⟩
    · exact Or.inl rfl
    · have hparts : (part ++ delimiter :: start) ++ [last] = front ++ [delimiter] := by
        simpa using hfront
      obtain ⟨rfl, hlast⟩ := List.append_inj' hparts rfl
      have hrun := Nesting.scans_iff.mp hscan
      rw [List.append_cons, Nesting.run_append, hcut] at hrun
      exact Or.inr ⟨start, by simpa using hlast, Nesting.scans_iff.mpr hrun⟩
  · rintro (rfl | ⟨front, rfl, hscan⟩)
    · exact ⟨part, rfl, hpart⟩
    · refine ⟨part ++ delimiter :: front, by simp, Nesting.scans_iff.mpr ?_⟩
      rw [List.append_cons, Nesting.run_append, hcut]
      exact Nesting.scans_iff.mp hscan

/-- A delimiter that is neither a quote nor a parenthesis ends a part wherever it is read outside of
both. -/
theorem endsPart_iff (hdelimiter : delimiter ∉ ['"', '\'', '(', ')']) {nesting : Nesting}
    {c : Char} :
    endsPart (· == delimiter) nesting c = true ↔ nesting = .neutral ∧ c = delimiter := by
  have hmark : isNestingMark delimiter = false := by
    simpa [isNestingMark, and_assoc] using hdelimiter
  unfold endsPart
  constructor
  · intro h
    simp_all
  · rintro ⟨rfl, rfl⟩
    simp [hmark]

theorem divided_iff {parts : List (List Char)} :
    Divided delimiter .neutral parts ↔
      parts ≠ [] ∧ (∀ part ∈ parts, UncutFrom delimiter .neutral part) ∧
        ∀ part ∈ parts.dropLast, Nesting.neutral.Scans part .neutral := by
  induction parts with
  | nil => exact ⟨fun h => absurd rfl h.ne_nil, fun h => absurd rfl h.1⟩
  | cons part parts ih =>
      cases parts with
      | nil =>
          constructor
          · rintro (huncut | ⟨_, _, hparts⟩)
            · simpa using huncut
            · exact absurd rfl hparts.ne_nil
          · rintro ⟨-, huncut, -⟩
            exact .last (huncut part List.mem_cons_self)
      | cons next parts =>
          rw [List.dropLast_cons_cons]
          constructor
          · rintro (_ | ⟨huncut, hends, hparts⟩)
            obtain ⟨-, hlater, hclosed⟩ := ih.mp hparts
            exact ⟨List.cons_ne_nil _ _, List.forall_mem_cons.mpr ⟨huncut, hlater⟩,
              List.forall_mem_cons.mpr ⟨hends, hclosed⟩⟩
          · rintro ⟨-, huncut, hclosed⟩
            obtain ⟨hpart, hlater⟩ := List.forall_mem_cons.mp huncut
            obtain ⟨hends, hclosed⟩ := List.forall_mem_cons.mp hclosed
            exact .cons hpart hends (ih.mpr ⟨List.cons_ne_nil _ _, hlater, hclosed⟩)

/-! ## Splitting -/

theorem dropEmptyLast_cons (part : List Char) {parts : List (List Char)} (hne : parts ≠ []) :
    dropEmptyLast (part :: parts) = part :: dropEmptyLast parts := by
  rw [dropEmptyLast]
  exact hne

theorem dropEmptyLast_eq (parts : List (List Char)) :
    dropEmptyLast parts = if parts.getLast? = some [] then parts.dropLast else parts := by
  induction parts with
  | nil => rfl
  | cons part parts ih =>
      cases parts with
      | nil => cases part <;> rfl
      | cons next parts =>
          rw [dropEmptyLast_cons part (List.cons_ne_nil next parts), ih, List.getLast?_cons_cons,
            List.dropLast_cons_cons]
          split <;> rfl

theorem dropEmptyLast_eq_nil_iff {parts : List (List Char)} :
    dropEmptyLast parts = [] ↔ parts = [] ∨ parts = [[]] := by
  rw [dropEmptyLast_eq]
  split
  · next hlast =>
      obtain ⟨front, rfl⟩ := List.getLast?_eq_some_iff.mp hlast
      simp
  · next hlast =>
      exact ⟨Or.inl, fun h => h.resolve_right fun hempty => hlast (by rw [hempty]; rfl)⟩

section Splitting

variable (hdelimiter : delimiter ∉ ['"', '\'', '(', ')'])
include hdelimiter

theorem topLevelParts_of_uncut {nesting : Nesting} {cs : List Char}
    (h : UncutFrom delimiter nesting cs) : topLevelParts (· == delimiter) nesting cs = [cs] := by
  induction cs generalizing nesting with
  | nil => rfl
  | cons c cs ih =>
      obtain ⟨hc, hcs⟩ := uncutFrom_cons_iff.mp h
      rw [topLevelParts, if_neg (fun hends => hc ((endsPart_iff hdelimiter).mp hends)), ih hcs]

theorem topLevelParts_append_cons {nesting : Nesting} {part : List Char}
    (huncut : UncutFrom delimiter nesting part) (hends : nesting.Scans part .neutral)
    (rest : List Char) :
    topLevelParts (· == delimiter) nesting (part ++ delimiter :: rest) =
      part :: topLevelParts (· == delimiter) .neutral rest := by
  induction part generalizing nesting with
  | nil =>
      obtain rfl : nesting = .neutral := Nesting.scans_iff.mp hends
      rw [List.nil_append, topLevelParts, if_pos ((endsPart_iff hdelimiter).mpr ⟨rfl, rfl⟩)]
  | cons c part ih =>
      obtain ⟨hc, hpart⟩ := uncutFrom_cons_iff.mp huncut
      cases hends with
      | cons hread hscan =>
          rw [← hread.step_eq] at hscan
          rw [List.cons_append, topLevelParts,
            if_neg (fun hends => hc ((endsPart_iff hdelimiter).mp hends)), ih hpart hscan]

/-- The parts of a text are as they should be. -/
theorem divided_topLevelParts (nesting : Nesting) (cs : List Char) :
    Divided delimiter nesting (topLevelParts (· == delimiter) nesting cs) := by
  induction cs generalizing nesting with
  | nil => exact .last (uncutFrom_nil delimiter nesting)
  | cons c cs ih =>
      unfold topLevelParts
      split
      · next hends =>
          obtain ⟨rfl, rfl⟩ := (endsPart_iff hdelimiter).mp hends
          exact .cons (uncutFrom_nil c .neutral) (.nil _) (ih .neutral)
      · next hends =>
          have hc : ¬ (nesting = .neutral ∧ c = delimiter) :=
            fun h => hends ((endsPart_iff hdelimiter).mpr h)
          have hparts := ih (nesting.step c)
          split
          · next hnil =>
              rw [hnil] at hparts
              cases hparts
          · next part parts hcons =>
              rw [hcons] at hparts
              cases hparts with
              | last huncut => exact .last (uncutFrom_cons_iff.mpr ⟨hc, huncut⟩)
              | cons huncut hscan hlater =>
                  exact .cons (uncutFrom_cons_iff.mpr ⟨hc, huncut⟩)
                    (.cons (nesting.reads_step c) hscan) hlater

/-- Parts that are as they should be are found again in the text that they make up. -/
theorem Divided.topLevelParts_intercalate {nesting : Nesting} {parts : List (List Char)}
    (h : Divided delimiter nesting parts) :
    topLevelParts (· == delimiter) nesting ([delimiter].intercalate parts) = parts := by
  induction h with
  | last huncut => rw [List.intercalate_singleton, topLevelParts_of_uncut hdelimiter huncut]
  | @cons nesting part parts huncut hends hparts ih =>
      rw [List.intercalate_cons_of_ne_nil hparts.ne_nil, List.append_assoc, List.singleton_append,
        topLevelParts_append_cons hdelimiter huncut hends, ih]

theorem intercalate_topLevelParts (nesting : Nesting) (cs : List Char) :
    [delimiter].intercalate (topLevelParts (· == delimiter) nesting cs) = cs := by
  induction cs generalizing nesting with
  | nil => rfl
  | cons c cs ih =>
      unfold topLevelParts
      split
      · next hends =>
          obtain ⟨rfl, rfl⟩ := (endsPart_iff hdelimiter).mp hends
          rw [List.intercalate_cons_of_ne_nil (divided_topLevelParts hdelimiter .neutral cs).ne_nil,
            ih]
          rfl
      · have hparts := ih (nesting.step c)
        have hne := (divided_topLevelParts hdelimiter (nesting.step c) cs).ne_nil
        split
        · next hnil => exact absurd hnil hne
        · next part parts hcons =>
            rw [hcons] at hparts
            rw [← hparts]
            cases parts <;> rfl

/-- Leaving out an empty last part takes a delimiter from the joined parts exactly if the text ends
in one that cuts. -/
theorem Divided.intercalate_dropEmptyLast {nesting : Nesting} {parts : List (List Char)}
    (h : Divided delimiter nesting parts) :
    (¬ EndsInCut delimiter nesting ([delimiter].intercalate parts) →
        [delimiter].intercalate (dropEmptyLast parts) = [delimiter].intercalate parts) ∧
      (EndsInCut delimiter nesting ([delimiter].intercalate parts) →
        [delimiter].intercalate (dropEmptyLast parts) ++ [delimiter] =
          [delimiter].intercalate parts) := by
  induction h with
  | @last nesting part huncut =>
      rw [List.intercalate_singleton]
      refine ⟨fun _ => ?_, fun hends => absurd hends huncut.not_endsInCut⟩
      cases part <;> simp [dropEmptyLast]
  | @cons nesting part parts huncut hends hparts ih =>
      have hne := hparts.ne_nil
      rw [List.intercalate_cons_of_ne_nil hne, List.append_assoc, List.singleton_append,
        endsInCut_append_cons_iff hdelimiter hends]
      by_cases hempty : parts = [[]]
      · subst hempty
        exact ⟨fun h => absurd (Or.inl rfl) h, fun _ => by simp [dropEmptyLast]⟩
      · have hkept : dropEmptyLast parts ≠ [] :=
          fun hnil => (dropEmptyLast_eq_nil_iff.mp hnil).elim hne hempty
        have hrest : [delimiter].intercalate parts ≠ [] :=
          fun hnil => hempty (hparts.eq_of_intercalate_eq_nil hnil)
        rw [dropEmptyLast_cons part hne, List.intercalate_cons_of_ne_nil hkept, or_iff_right hrest]
        refine ⟨fun h => ?_, fun h => ?_⟩
        · rw [ih.1 h, List.append_assoc, List.singleton_append]
        · rw [List.append_assoc, ih.2 h, List.append_assoc, List.singleton_append]

end Splitting

/-- How a text is split at a delimiter. -/
structure SplitsInto (delimiter : Char) (text : List Char) (parts : List (List Char)) : Prop where
  whole : ¬ EndsInCut delimiter .neutral text → [delimiter].intercalate parts = text
  trailing : EndsInCut delimiter .neutral text → [delimiter].intercalate parts ++ [delimiter] = text
  uncut : ∀ part ∈ parts, UncutFrom delimiter .neutral part
  closed : ∀ part ∈ parts.dropLast, Nesting.neutral.Scans part .neutral

/-- A text is split exactly where a delimiter is read outside of parentheses and quotes. Joining
the parts gives the text back, but for one delimiter if the text ends in one that cuts. Every list
of parts without a cut, closed but for the last one and with a last one that is not empty, is what
its joined text is split into. -/
theorem splitsInto_splitTopLevel (hdelimiter : delimiter ∉ ['"', '\'', '(', ')']) :
    (∀ text, SplitsInto delimiter text (splitTopLevel (· == delimiter) text)) ∧
      ∀ parts, parts ≠ [] → (∀ part ∈ parts, UncutFrom delimiter .neutral part) →
        (∀ part ∈ parts.dropLast, Nesting.neutral.Scans part .neutral) →
        parts.getLast? ≠ some [] →
        splitTopLevel (· == delimiter) ([delimiter].intercalate parts) = parts := by
  refine ⟨fun text => ?_, fun parts hne huncut hclosed hlast => ?_⟩
  · have hdivided := divided_topLevelParts hdelimiter .neutral text
    obtain ⟨hwhole, htrailing⟩ := hdivided.intercalate_dropEmptyLast hdelimiter
    rw [intercalate_topLevelParts hdelimiter] at hwhole htrailing
    obtain ⟨-, huncut, hclosed⟩ := divided_iff.mp hdivided
    have hlisted : (∀ part ∈ splitTopLevel (· == delimiter) text,
          UncutFrom delimiter .neutral part) ∧
        ∀ part ∈ (splitTopLevel (· == delimiter) text).dropLast,
          Nesting.neutral.Scans part .neutral := by
      rw [splitTopLevel, dropEmptyLast_eq]
      split
      · exact ⟨fun part hpart => huncut part (List.dropLast_subset _ hpart),
          fun part hpart => hclosed part (List.dropLast_subset _ hpart)⟩
      · exact ⟨huncut, hclosed⟩
    exact ⟨hwhole, htrailing, hlisted.1, hlisted.2⟩
  · rw [splitTopLevel,
      (divided_iff.mpr ⟨hne, huncut, hclosed⟩).topLevelParts_intercalate hdelimiter,
      dropEmptyLast_eq, if_neg hlast]

end Delimiter

/-- A text with commas in parentheses and in quotes, an empty part and a comma at its end. -/
def commaText : List Char :=
  "If(a,b),'x,)',,c,".toList

/-- The parts of that text. -/
def commaTextParts : List (List Char) :=
  ["If(a,b)".toList, "'x,)'".toList, [], "c".toList]

/-- The last comma of the text is missing from its joined parts, which are split into themselves. -/
theorem splitsInto_commaText :
    ',' ∉ ['"', '\'', '(', ')'] ∧ EndsInCut ',' .neutral commaText ∧
      SplitsInto ',' commaText commaTextParts ∧
      [','].intercalate commaTextParts = "If(a,b),'x,)',,c".toList ∧
      splitTopLevel (· == ',') ([','].intercalate commaTextParts) = commaTextParts := by
  have hdelimiter : ',' ∉ ['"', '\'', '(', ')'] := by decide
  have hsplit : splitTopLevel (· == ',') commaText = commaTextParts := by decide
  have hends : EndsInCut ',' .neutral commaText :=
    ⟨"If(a,b),'x,)',,c".toList, by decide, Nesting.scans_iff.mpr (by decide)⟩
  have hparts : SplitsInto ',' commaText commaTextParts :=
    hsplit ▸ (splitsInto_splitTopLevel hdelimiter).1 commaText
  exact ⟨hdelimiter, hends, hparts, by decide,
    (splitsInto_splitTopLevel hdelimiter).2 commaTextParts (by decide) hparts.uncut hparts.closed
      (by decide)⟩

end QlikMigration.Script
