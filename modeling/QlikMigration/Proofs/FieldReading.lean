import QlikMigration.Proofs.ClauseReading
import QlikMigration.Proofs.TopLevelSplit

/-!
# Reading the field list of a canonical statement

The field list reaches from `LOAD`, or the `DISTINCT` after it, to the clause
that follows. It is cut at the commas outside of parentheses and quotes. Since
the expressions are balanced and have no such comma, the cut gives the entries
back; and since no expression ends like an expression with a name, a name is
found exactly where one was given.
-/

namespace QlikMigration.Script

open QlikMigration.Text

/-! ## Cutting outside of parentheses and quotes -/

theorem hasTopLevelComma_eq_false_iff {nesting : Nesting} {cs : List Char} :
    hasTopLevelComma nesting cs = false ↔ UncutFrom ',' nesting cs := by
  induction cs generalizing nesting with
  | nil => exact ⟨fun _ => uncutFrom_nil ',' nesting, fun _ => rfl⟩
  | cons c cs ih =>
      rw [hasTopLevelComma, Bool.or_eq_false_iff, ih, uncutFrom_cons_iff, ← Bool.not_eq_true,
        Bool.and_eq_true, beq_iff_eq, beq_iff_eq]

theorem hasTopLevelComma_append (nesting : Nesting) (front back : List Char) :
    hasTopLevelComma nesting (front ++ back) =
      (hasTopLevelComma nesting front || hasTopLevelComma (nesting.run front) back) := by
  induction front generalizing nesting with
  | nil => rfl
  | cons c front ih =>
      rw [List.cons_append, hasTopLevelComma, hasTopLevelComma, ih, Bool.or_assoc]
      rfl

/-- A text without commas, parentheses and quotes. -/
def Quiet (cs : List Char) : Prop :=
  ∀ c ∈ cs, isNestingMark c = false ∧ c ≠ ','

/-- A text is balanced and has no comma outside of parentheses and quotes. -/
structure Undivided (cs : List Char) : Prop where
  balanced : Nesting.neutral.run cs = .neutral
  comma : hasTopLevelComma .neutral cs = false

theorem Quiet.undivided {cs : List Char} (h : Quiet cs) : Undivided cs := by
  induction cs with
  | nil => exact ⟨rfl, rfl⟩
  | cons c cs ih =>
      obtain ⟨hbalanced, hcomma⟩ := ih fun d hd => h d (List.mem_cons_of_mem c hd)
      obtain ⟨hmark, hc⟩ := h c List.mem_cons_self
      have hstep : Nesting.neutral.step c = .neutral := by
        simp only [isNestingMark, Bool.or_eq_false_iff, beq_eq_false_iff_ne, ne_eq] at hmark
        simp [Nesting.step, Nesting.neutral, hmark]
      refine ⟨?_, ?_⟩
      · rw [Nesting.run, List.foldl_cons, hstep]
        exact hbalanced
      · rw [hasTopLevelComma, hstep, hcomma]
        simp [hc]

theorem Undivided.append {front back : List Char} (hfront : Undivided front)
    (hback : Undivided back) : Undivided (front ++ back) where
  balanced := by rw [Nesting.run_append, hfront.balanced, hback.balanced]
  comma := by rw [hasTopLevelComma_append, hfront.balanced, hfront.comma, hback.comma]; rfl

/-- White space is quiet. -/
theorem Blanks.quiet {gap : List Char} (hgap : Blanks gap) : Quiet gap := by
  intro c hc
  have hne : ∀ d, isBlank d = false → c ≠ d := by
    rintro d hd rfl
    exact hgap.not_mem hd hc
  simp [isNestingMark, hne '"' (by decide), hne '\'' (by decide), hne '(' (by decide),
    hne ')' (by decide), hne ',' (by decide)]

/-- Words are quiet. -/
theorem quiet_of_all_isWord {cs : List Char} (h : cs.all isWord = true) : Quiet cs := by
  intro c hc
  have hword := List.all_eq_true.mp h c hc
  have hne : ∀ d, isWord d = false → c ≠ d := by
    rintro d hd rfl
    rw [hword] at hd
    exact Bool.false_ne_true hd.symm
  simp [isNestingMark, hne '"' (by decide), hne '\'' (by decide), hne '(' (by decide),
    hne ')' (by decide), hne ',' (by decide)]

/-- The parts of a text outside of parentheses and quotes, between commas. -/
def commaParts (cs : List Char) : List (List Char) :=
  topLevelParts (· == ',') .neutral cs

theorem topLevelParts_append_comma {nesting : Nesting} {cs : List Char}
    (hbalanced : nesting.run cs = .neutral) (hcomma : hasTopLevelComma nesting cs = false)
    (rest : List Char) :
    topLevelParts (· == ',') nesting (cs ++ ',' :: rest) = cs :: commaParts rest :=
  topLevelParts_append_cons (by decide) (hasTopLevelComma_eq_false_iff.mp hcomma)
    (Nesting.scans_iff.mpr hbalanced) rest

theorem topLevelParts_eq_singleton {nesting : Nesting} {cs : List Char}
    (hcomma : hasTopLevelComma nesting cs = false) :
    topLevelParts (· == ',') nesting cs = [cs] :=
  topLevelParts_of_uncut (by decide) (hasTopLevelComma_eq_false_iff.mp hcomma)

theorem commaCut_commaParts : CommaCut commaParts Undivided where
  cons _ rest htext := topLevelParts_append_comma htext.balanced htext.comma rest
  single _ htext := topLevelParts_eq_singleton htext.comma
  pad _ _ _ hlead htext htrail :=
    hlead.quiet.undivided.append (htext.append htrail.quiet.undivided)

theorem dropEmptyLast_eq_self {parts : List (List Char)} (h : [] ∉ parts) :
    dropEmptyLast parts = parts := by
  have hlast : parts.getLast? ≠ some [] := fun hlast => h (List.mem_of_mem_getLast? hlast)
  rw [dropEmptyLast_eq, if_neg hlast]

/-! ## Names of expressions -/

/-- The shape of a text that is read as a name after `as`. -/
theorem exists_of_aliasAt? {cs name : List Char} (h : aliasAt? cs = some name)
    (honeLine : '\n' ∉ cs) :
    ∃ gap a s between, Blanks gap ∧ gap ≠ [] ∧ letterMatches 'A' a = true ∧
      letterMatches 'S' s = true ∧ Blanks between ∧ between ≠ [] ∧ name.all isWord = true ∧
      name ≠ [] ∧ cs = (gap ++ [a, s]) ++ (between ++ name) := by
  obtain ⟨keyword, hkeyword, hafterKeyword⟩ := Option.bind_eq_some_iff.mp h
  obtain ⟨text, hspaced, hfound⟩ := Option.bind_eq_some_iff.mp hafterKeyword
  obtain ⟨rest, hrest, htext⟩ := Option.bind_eq_some_iff.mp hspaced
  obtain ⟨_, hword, rfl⟩ := afterLetters?_eq_some_iff.mp hrest
  obtain ⟨a, _, ha, hlater, rfl⟩ := List.forall₂_cons_left_iff.mp hword
  obtain ⟨s, _, hs, hnil, rfl⟩ := List.forall₂_cons_left_iff.mp hlater
  cases hnil
  obtain ⟨gap, hgap, hgapNe, -, rfl⟩ := afterBlanks?_eq_some_iff.mp hkeyword
  obtain ⟨between, hbetween, hbetweenNe, -, rfl⟩ := afterBlanks?_eq_some_iff.mp htext
  by_cases hname : (!(wordRun text).isEmpty && atEnd (afterWordRun text)) = true
  · rw [if_pos hname, Option.some.injEq] at hfound
    simp only [Bool.and_eq_true, Bool.not_eq_true', List.isEmpty_eq_false_iff] at hname
    -- On one line the name can only end where the text ends.
    have hrun : afterWordRun text = [] := by
      by_contra hne
      have hline : '\n' ∉ afterWordRun text := by
        intro hmem
        have hmemText : '\n' ∈ text := (List.dropWhile_suffix isWord).subset hmem
        exact honeLine (by simp [hmemText])
      rw [atEnd_eq_false hne hline] at hname
      exact Bool.false_ne_true hname.2
    have hwhole : text = name := by
      rw [← wordRun_append_afterWordRun text, hrun, List.append_nil, hfound]
    refine ⟨gap, a, s, between, hgap, hgapNe, ha, hs, hbetween, hbetweenNe, ?_, ?_, ?_⟩
    · rw [← hfound]
      exact List.all_takeWhile
    · rw [← hfound]
      exact hname.1
    · rw [hwhole]
      simp
  · rw [if_neg hname] at hfound
    cases hfound

theorem Blanks.exists_reverse_eq_cons {gap : List Char} (hgap : Blanks gap) (hne : gap ≠ []) :
    ∃ c rest, gap.reverse = c :: rest ∧ isBlank c = true := by
  obtain ⟨c, rest, hrest⟩ := List.exists_cons_of_ne_nil (List.reverse_ne_nil_iff.mpr hne)
  refine ⟨c, rest, hrest, hgap c (List.mem_reverse.mp ?_)⟩
  rw [hrest]
  exact List.mem_cons_self

/-- Without its last word a text ends in the white space before that word. -/
theorem dropWhile_isWord_reverse {front between name : List Char} (hbetween : Blanks between)
    (hne : between ≠ []) (hname : name.all isWord = true) :
    (front ++ (between ++ name)).reverse.dropWhile isWord =
      between.reverse ++ front.reverse := by
  have hnameReverse : ∀ c ∈ name.reverse, isWord c = true := by simpa using hname
  obtain ⟨c, rest, hrest, hc⟩ := hbetween.exists_reverse_eq_cons hne
  rw [List.reverse_append, List.reverse_append, List.append_assoc,
    List.dropWhile_append_of_pos hnameReverse, hrest, List.cons_append]
  exact List.dropWhile_cons_of_neg (by simp [isWord_of_isBlank hc])

/-- Before the last word of a text stands what was put before it. -/
theorem beforeLastWord_append {front between name : List Char}
    (hfront : ∀ c ∈ front.getLast?, isBlank c = false) (hbetween : Blanks between)
    (hne : between ≠ []) (hname : name.all isWord = true) :
    beforeLastWord (front ++ (between ++ name)) = front.reverse := by
  have hgapReverse : Blanks between.reverse := fun c hc => hbetween c (List.mem_reverse.mp hc)
  have hflush : Flush front.reverse := by
    intro c hc
    rw [List.head?_reverse] at hc
    exact hfront c hc
  rw [beforeLastWord, dropWhile_isWord_reverse hbetween hne hname,
    hgapReverse.dropWhile_append hflush]

/-- In an ASCII text on one line that does not end in a name after `as`, no such name is
found. -/
theorem aliasAt?_eq_none {cs part : List Char} (hascii : ∀ c ∈ cs, c.toNat < 128)
    (honeLine : '\n' ∉ cs) (hunnamed : endsInAlias cs = false) (hpart : part <:+ cs) :
    aliasAt? part = none := by
  by_contra hsome
  obtain ⟨name, hname⟩ := Option.ne_none_iff_exists'.mp hsome
  obtain ⟨gap, a, s, between, hgap, hgapNe, ha, hs, hbetween, hbetweenNe, hword, hne, rfl⟩ :=
    exists_of_aliasAt? hname fun hmem => honeLine (hpart.subset hmem)
  obtain ⟨front, rfl⟩ := hpart
  have hlast : ∀ c ∈ (front ++ (gap ++ [a, s])).getLast?, isBlank c = false := by
    intro c hc
    obtain rfl : s = c := by simpa using hc
    exact isBlank_of_letterMatches (by decide) hs
  rw [letterMatches_of_ascii (hascii a (by simp))] at ha
  rw [letterMatches_of_ascii (hascii s (by simp))] at hs
  obtain ⟨c, rest, hrest, hc⟩ := hgap.exists_reverse_eq_cons hgapNe
  obtain ⟨d, more, hmore, hd⟩ := hbetween.exists_reverse_eq_cons hbetweenNe
  have hshorter : (between.reverse ++ (front ++ (gap ++ [a, s])).reverse).length <
      (front ++ (gap ++ [a, s]) ++ (between ++ name)).length := by
    have hlength : 0 < name.length := List.length_pos_iff.mpr hne
    simp only [List.length_append, List.length_reverse]
    omega
  rw [← List.append_assoc, endsInAlias, beforeLastWord_append hlast hbetween hbetweenNe hword,
    dropWhile_isWord_reverse hbetween hbetweenNe hword, decide_eq_true hshorter] at hunnamed
  simp [hmore, hd, hrest, hc, ha, hs] at hunnamed

/-- Inside an expression no name is found if a name follows it. -/
theorem aliasAt?_append_eq_none {part lead between name : List Char}
    (hlast : ∀ c ∈ part.getLast?, isBlank c = false) (hpart : part ≠ [])
    (hbetween : Blanks between) (hne : between ≠ []) (hname : name.all isWord = true)
    (honeLine : '\n' ∉ part ++ (lead ++ ['a', 's']) ++ (between ++ name)) :
    aliasAt? (part ++ (lead ++ ['a', 's']) ++ (between ++ name)) = none := by
  by_contra hsome
  obtain ⟨other, hother⟩ := Option.ne_none_iff_exists'.mp hsome
  obtain ⟨gap, a, s, between', hgap, -, -, hs, hbetween', hne', hword, -, heq⟩ :=
    exists_of_aliasAt? hother honeLine
  -- Both texts end in a word, so what stands before these words is the same.
  have hbefore := congrArg beforeLastWord heq
  rw [beforeLastWord_append (by simp; decide) hbetween hne hname,
    beforeLastWord_append (by simpa using isBlank_of_letterMatches (by decide) hs) hbetween' hne'
      hword, List.reverse_inj, ← List.append_assoc] at hbefore
  obtain ⟨rfl, -⟩ := List.append_inj' hbefore rfl
  obtain ⟨c, hc⟩ := Option.ne_none_iff_exists'.mp (mt List.getLast?_eq_none_iff.mp hpart)
  have hblank := hgap c (List.mem_append_left _ (List.mem_of_mem_getLast? hc))
  rw [hlast c hc] at hblank
  exact Bool.false_ne_true hblank

/-- A name after `as` is found where it stands. -/
theorem aliasAt?_append {lead between : List Char} (hlead : Separator.gap.Writes lead)
    (hbetween : Separator.gap.Writes between) (name : Identifier) :
    aliasAt? ((lead ++ ['a', 's']) ++ (between ++ name.chars)) = some name.chars := by
  obtain ⟨hleadBlanks, hleadNe⟩ := Separator.writes_gap_iff.mp hlead
  obtain ⟨hblanks, hne⟩ := Separator.writes_gap_iff.mp hbetween
  have hword := List.all_eq_true.mp name.word
  have hflush : Flush (['a', 's'] ++ (between ++ name.chars)) :=
    asWord.solid.flush.append asWord.solid.ne_nil _
  have hkeyword : after? .asName (['a', 's'] ++ (between ++ name.chars)) =
      some (between ++ name.chars) := rfl
  have hrun : wordRun name.chars = name.chars := List.takeWhile_eq_self_iff.mpr hword
  have hrest : afterWordRun name.chars = [] := List.dropWhile_eq_nil_iff.mpr hword
  rw [List.append_assoc, aliasAt?, hleadBlanks.afterBlanks?_append hleadNe hflush,
    Option.bind_some, afterSpaced?, hkeyword, Option.bind_some,
    hblanks.afterBlanks?_append hne name.solid.flush, Option.bind_some, hrun, hrest]
  simp [name.solid.ne_nil, atEnd]

/-! ## Entries -/

namespace Entry

variable {entry : Entry} {cs : List Char}

/-- An entry is its expression alone, or with `as` and a name after it. -/
theorem cases_of_writes (h : entry.row.Writes cs) :
    (entry.name = none ∧ cs = entry.expression.chars) ∨
      ∃ name lead between, entry.name = some name ∧ Separator.gap.Writes lead ∧
        Separator.gap.Writes between ∧
        cs = entry.expression.chars ++ ((lead ++ ['a', 's']) ++ (between ++ name.chars)) := by
  rw [Entry.row] at h
  cases hname : entry.name with
  | none =>
      rw [hname] at h
      exact Or.inl ⟨rfl, Phrase.writes_row_iff.mp h⟩
  | some name =>
      rw [hname] at h
      obtain ⟨_, hstart, rfl⟩ := h
      obtain ⟨lead, _, hlead, hmore, rfl⟩ := Written.cons_iff.mp hstart
      obtain ⟨between, _, hbetween, hnil, rfl⟩ := Written.cons_iff.mp hmore
      cases hnil
      exact Or.inr ⟨name, lead, between, rfl, hlead, hbetween, by simp [Token.chars, asWord]⟩

theorem undivided_of_writes (h : entry.row.Writes cs) : Undivided cs := by
  have hexpression : Undivided entry.expression.chars :=
    ⟨entry.expression.balanced, entry.expression.undivided⟩
  rcases cases_of_writes h with ⟨-, rfl⟩ | ⟨name, lead, between, -, hlead, hbetween, rfl⟩
  · exact hexpression
  · have hleadQuiet := (Separator.writes_gap_iff.mp hlead).1.quiet
    have hbetweenQuiet := (Separator.writes_gap_iff.mp hbetween).1.quiet
    have hasQuiet : Quiet ['a', 's'] := quiet_of_all_isWord (by decide)
    have hnameQuiet := quiet_of_all_isWord name.word
    exact hexpression.append ((hleadQuiet.undivided.append hasQuiet.undivided).append
      (hbetweenQuiet.undivided.append hnameQuiet.undivided))

/-- An entry is read back from each of its written forms. -/
theorem readField_of_writes (h : entry.row.Writes cs) (honeLine : '\n' ∉ cs) :
    readField cs = entry.field := by
  have hsolid := entry.expression.solid
  rcases cases_of_writes h with ⟨hname, rfl⟩ | ⟨name, lead, between, hname, hlead, hbetween, rfl⟩
  · have hnone : findFirst? (fun _ rest => aliasAt? rest) entry.expression.chars = none :=
      findFirstAfter?_eq_none (fun part hpart _ => aliasAt?_eq_none entry.expression.ascii
        honeLine entry.expression.unnamed hpart) none
    rw [readField, hnone, Entry.field, hname, ← entry.expression.isCalculated_eq]
    rfl
  · obtain ⟨hblanks, hne⟩ := Separator.writes_gap_iff.mp hbetween
    have hinside : ∀ part, part ≠ [] → part <:+ entry.expression.chars → ∀ _ : Option Char,
        aliasAt? (part ++ ((lead ++ ['a', 's']) ++ (between ++ name.chars))) = none := by
      intro part hpartNe hpart _
      have hlast : ∀ c ∈ part.getLast?, isBlank c = false := by
        obtain ⟨front, hfront⟩ := hpart
        have hwhole := hsolid.last
        rwa [← hfront, List.getLast?_append_of_ne_nil front hpartNe] at hwhole
      rw [← List.append_assoc]
      refine aliasAt?_append_eq_none hlast hpartNe hblanks hne name.word fun hmem => honeLine ?_
      simp only [List.mem_append] at hmem ⊢
      rcases hmem with (hmem | hmem) | hmem
      · exact Or.inl (hpart.subset hmem)
      · exact Or.inr (Or.inl hmem)
      · exact Or.inr (Or.inr hmem)
    have hfound : findFirst? (fun _ rest => aliasAt? rest)
        (entry.expression.chars ++ ((lead ++ ['a', 's']) ++ (between ++ name.chars))) =
        some (entry.expression.chars, name.chars) := by
      rw [findFirst?, findFirstAfter?_append hinside,
        findFirstAfter?_of_eq_some (aliasAt?_append hlead hbetween name)]
      simp
    rw [readField, hfound, Entry.field, hname, ← entry.expression.isCalculated_eq]
    simp only [hsolid.trim_eq_self]
    rfl

/-- Entries are read back one by one. -/
theorem map_readField_of_forall₂ {entries : List Entry} {texts : List (List Char)}
    (h : List.Forall₂ (fun entry text => entry.row.Writes text ∧ '\n' ∉ text) entries texts) :
    [] ∉ texts ∧ texts.map readField = entries.map Entry.field := by
  induction h with
  | nil => exact ⟨by simp, rfl⟩
  | cons hentry _ ih =>
      refine ⟨?_, ?_⟩
      · rw [List.mem_cons, not_or]
        exact ⟨Ne.symm hentry.1.ne_nil, ih.1⟩
      · rw [List.map_cons, List.map_cons, readField_of_writes hentry.1 hentry.2, ih.2]

end Entry

/-! ## Field lists -/

/-- The fields in the text of a field list. -/
def fieldsIn (text : List Char) : List Field :=
  if trim text = ['*'] then [⟨"*", none, false⟩]
  else (((splitTopLevel (· == ',') (trim text)).map trim).filter (!·.isEmpty)).map readField

theorem readFields_eq (statement : List Char) :
    readFields statement = (fieldList? statement).elim [] fieldsIn := by
  unfold readFields
  cases fieldList? statement <;> rfl

/-- The only field list that is written as a star is a star. -/
theorem eq_star_iff {entries : Listing Entry} {cs : List Char}
    (h : (entries.row Entry.row).Writes cs) :
    cs = ['*'] ↔
      entries.others = [] ∧ entries.first.name = none ∧ entries.first.expression.chars = ['*'] := by
  have hlength : ∀ phrase : Phrase, 0 < phrase.chars.length :=
    fun phrase => List.length_pos_iff.mpr phrase.solid.ne_nil
  obtain ⟨first, others⟩ := entries
  cases others with
  | nil =>
      rcases Entry.cases_of_writes h with ⟨hname, rfl⟩ | ⟨name, lead, between, hname, -, -, rfl⟩
      · exact ⟨fun hstar => ⟨rfl, hname, hstar⟩, fun hstar => hstar.2.2⟩
      · have hexpression := hlength first.expression.toPhrase
        constructor
        · intro hstar
          have hshort := congrArg List.length hstar
          simp only [List.length_append, List.length_cons, List.length_nil] at hshort
          omega
        · rintro ⟨-, hnone, -⟩
          rw [hname] at hnone
          cases hnone
  | cons next others =>
      obtain ⟨text, between, rest, htext, hbetween, hrest, rfl⟩ := Row.writes_join_cons_iff.mp h
      constructor
      · intro hstar
        have htextLength := List.length_pos_iff.mpr htext.ne_nil
        have hbetweenLength := List.length_pos_iff.mpr hbetween.ne_nil
        have hshort := congrArg List.length hstar
        simp only [List.length_append, List.length_cons, List.length_nil] at hshort
        omega
      · rintro ⟨hnil, -⟩
        cases hnil

/-- A field list is read back from each of its written forms. -/
theorem fieldsIn_of_writes {entries : Listing Entry} {cs : List Char}
    (h : (entries.row Entry.row).Writes cs) (honeLine : '\n' ∉ cs) :
    fieldsIn cs = fieldsOf entries := by
  have hentries := commaCut_commaParts.forall₂_map_trim
    (fun _ _ => Entry.undivided_of_writes) h honeLine Blanks.nil Blanks.nil
  rw [List.nil_append, List.append_nil] at hentries
  obtain ⟨hnonempty, hfields⟩ := Entry.map_readField_of_forall₂ hentries
  have hparts : [] ∉ commaParts cs := fun hmem => hnonempty (List.mem_map.mpr ⟨[], hmem, rfl⟩)
  have htrim : trim cs = cs := Solid.trim_eq_self (Row.Writes.solid h honeLine)
  rw [fieldsIn, fieldsOf, htrim]
  by_cases hstar : cs = ['*']
  · rw [if_pos hstar, if_pos ((eq_star_iff h).mp hstar)]
  · have hsplit : splitTopLevel (· == ',') cs = commaParts cs := dropEmptyLast_eq_self hparts
    have hkeep : ((commaParts cs).map trim).filter (!·.isEmpty) = (commaParts cs).map trim := by
      apply List.filter_eq_self.mpr
      intro text htext
      have hne : text ≠ [] := fun hnil => hnonempty (hnil ▸ htext)
      simp [hne]
    rw [if_neg hstar, if_neg fun hentry => hstar ((eq_star_iff h).mpr hentry), hsplit, hkeep,
      hfields]

/-! ## Where a field list stands -/

/-- A text between two gaps is found whole, if nothing in it closes it and what follows
does. -/
theorem spacedText?_append {closes : List Char → Bool} {lead text between rest : List Char}
    {row : Row} (hlead : Separator.gap.Writes lead) (htext : row.Writes text)
    (hbetween : Separator.gap.Writes between) (hrest : Flush rest)
    (hopen : ∀ part, part ≠ [] → part <:+ text → closes (part ++ (between ++ rest)) = false)
    (hcloses : closes rest = true) :
    spacedText? closes (lead ++ (text ++ (between ++ rest))) = some text := by
  obtain ⟨hleadBlanks, hleadNe⟩ := Separator.writes_gap_iff.mp hlead
  obtain ⟨hblanks, hne⟩ := Separator.writes_gap_iff.mp hbetween
  have hflush : Flush (text ++ (between ++ rest)) := htext.flush.append htext.ne_nil _
  have hupTo : upTo? anyChar (fun tail => (afterBlanks? tail).any closes)
      (text ++ (between ++ rest)) = some text := by
    refine upTo?_append (fun _ _ => rfl) (fun part hpartNe hpart => ?_) ?_
    · exact any_afterBlanks?_append htext.last hopen hpartNe hpart
    · rw [hblanks.afterBlanks?_append hne hrest]
      exact hcloses
  rw [spacedText?, hleadBlanks.takeWhile_append hflush, hleadBlanks.dropWhile_append hflush, hupTo,
    if_neg (by simpa using hleadNe)]

/-- Inside a row without reserved words no clause starts. -/
theorem startsClause_eq_false {row : Row} {text : List Char} (htext : row.Writes text)
    (homits : ∀ keyword, row.Omits keyword) {between : List Char}
    (hbetween : Separator.gap.Writes between) {part : List Char} (hne : part ≠ [])
    (hpart : part <:+ text) (rest : List Char) :
    startsClause (part ++ (between ++ rest)) = false := by
  have hafter : ∀ keyword ∈ reservedWords, after? keyword (part ++ (between ++ rest)) = none := by
    intro keyword hreserved
    obtain ⟨c, between, rfl⟩ := List.exists_cons_of_ne_nil hbetween.ne_nil
    exact Capital.afterLetters?_append_of_not_isWord keyword.capital.upper
      (htext.lacks hreserved (homits keyword) part hpart) (hbetween.wordless c List.mem_cons_self) _
  have hsemicolon : [';'].isPrefixOf (part ++ (between ++ rest)) = false := by
    apply isPrefixOf_singleton_eq_false
    rw [List.head?_append_of_ne_nil part hne]
    exact fun hmem => htext.not_mem_semicolon (hpart.subset (List.mem_of_mem_head? hmem))
  rw [startsClause, hafter .fromSource (by decide), hafter .resident (by decide),
    hafter .inlineRows (by decide), hafter .whereRows (by decide),
    afterPair?_eq_none (hafter .group (by decide)), afterPair?_eq_none (hafter .order (by decide)),
    hsemicolon]
  rfl

/-- A source starts a clause. -/
theorem startsClause_of_source {source : Source} {text : List Char}
    (h : (Clause.source source).row.Writes text) (rest : List Char) :
    startsClause (text ++ rest) = true := by
  cases source with
  | file path =>
      obtain ⟨between, -, rfl⟩ := exists_of_writes_phrase h
      simp [startsClause]
  | table name =>
      obtain ⟨between, -, rfl⟩ := exists_of_writes_phrase h
      simp [startsClause]

/-- A heading has no reserved word but the `JOIN` of a join. -/
theorem Heading.pieces_ne {heading : Heading} {reserved : Keyword}
    (hreserved : reserved ∈ reservedWords) (hjoin : reserved ≠ .join ∨ heading.join? = .none) :
    ∀ piece ∈ heading.pieces, piece.1 ≠ .word reserved := by
  cases heading with
  | none => simp [Heading.pieces]
  | label name => simp [Heading.pieces]
  | join kind table =>
      have hkind : kind.keyword ≠ reserved := by
        rintro rfl
        revert hreserved
        cases kind <;> decide
      have hne : Keyword.join ≠ reserved := by
        rcases hjoin with hother | hnone
        · exact hother.symm
        · cases hnone
      simp [Heading.pieces, hkind, hne]

/-- The field list after `LOAD`. -/
def fieldListAfter? (afterLoad : List Char) : Option (List Char) :=
  match (afterBlanks? afterLoad).bind (after? .distinct) with
  | some afterDistinct =>
    (spacedText? startsClause afterDistinct).or (spacedText? startsClause afterLoad)
  | none => spacedText? startsClause afterLoad

theorem fieldList?_eq (statement : List Char) :
    fieldList? statement = search? (fun cs => (after? .load cs).bind fieldListAfter?) statement :=
  rfl

namespace CanonicalLoad

variable {load : CanonicalLoad} {line : List Char}

/-- The word `DISTINCT`, if a load has it. -/
def distinctPieces (load : CanonicalLoad) : List Piece :=
  if load.distinct then [(.word .distinct, .gap)] else []

/-- The parts of a written load up to its source. -/
theorem exists_of_located (h : Located (.source load.source) load.opening load.later line) :
    ∃ head lead distinct text between source tail, Written load.heading.pieces head ∧
      Separator.gap.Writes lead ∧ Written load.distinctPieces distinct ∧
      (load.entries.row Entry.row).Writes text ∧ Separator.gap.Writes between ∧
      (Clause.source load.source).row.Writes source ∧ Follows load.later tail ∧
      line = head ++ (Keyword.load.letters ++ (lead ++ (distinct ++ (text ++ (between ++
        (source ++ tail)))))) := by
  obtain ⟨start, source, tail, hstart, hsource, htail, rfl⟩ := h
  obtain ⟨head, _, hhead, hload, rfl⟩ := Written.append_iff.mp hstart
  obtain ⟨lead, _, hlead, hrest, rfl⟩ := Written.cons_iff.mp hload
  obtain ⟨distinct, _, hdistinct, hentries, rfl⟩ := Written.append_iff.mp hrest
  obtain ⟨text, between, htext, hbetween, rfl⟩ := Row.written_closedBy_iff.mp hentries
  exact ⟨head, lead, distinct, text, between, source, tail, hhead, hlead, hdistinct, htext,
    hbetween, hsource, htail, by simp [Token.chars]⟩

/-- The field list of a load is found as it was written. -/
theorem readFields_of_located (h : Located (.source load.source) load.opening load.later line)
    (honeLine : '\n' ∉ line) : readFields line = fieldsOf load.entries := by
  obtain ⟨head, lead, distinct, text, between, source, tail, hhead, hlead, hdistinct, htext,
    hbetween, hsource, htail, rfl⟩ := exists_of_located h
  have homits : ∀ keyword, (load.entries.row Entry.row).Omits keyword := fun keyword =>
    load.entries.omits_row fun entry => entry.omits_row keyword
  have hflush : Flush (source ++ tail) := hsource.flush.append hsource.ne_nil tail
  have hspaced : ∀ gap, Separator.gap.Writes gap →
      spacedText? startsClause (gap ++ (text ++ (between ++ (source ++ tail)))) = some text :=
    fun gap hgap => spacedText?_append hgap htext hbetween hflush
      (fun part hne hpart => startsClause_eq_false htext homits hbetween hne hpart _)
      (startsClause_of_source hsource tail)
  have hlist : fieldListAfter? (lead ++ (distinct ++ (text ++ (between ++ (source ++ tail))))) =
      some text := by
    obtain ⟨hblanks, hne⟩ := Separator.writes_gap_iff.mp hlead
    rw [distinctPieces] at hdistinct
    cases hcases : load.distinct with
    | true =>
        rw [hcases, if_pos rfl] at hdistinct
        obtain ⟨gap, _, hgap, hnil, rfl⟩ := Written.cons_iff.mp hdistinct
        cases hnil
        have hword : Flush (Keyword.distinct.letters ++ (gap ++ (text ++ (between ++
            (source ++ tail))))) :=
          Keyword.distinct.solid.flush.append Keyword.distinct.solid.ne_nil _
        simp only [Token.chars, List.append_nil, List.append_assoc]
        rw [fieldListAfter?, hblanks.afterBlanks?_append hne hword, Option.bind_some, after?_self]
        simp only [hspaced gap hgap, Option.some_or]
    | false =>
        rw [hcases, if_neg Bool.false_ne_true] at hdistinct
        cases hdistinct
        have hentries : Flush (text ++ (between ++ (source ++ tail))) :=
          htext.flush.append htext.ne_nil _
        have hseals : Seals Keyword.distinct.letters (text ++ between) :=
          Keyword.distinct.capital.seals_append (htext.lacks (by decide) (homits .distinct))
            hbetween.ne_nil hbetween.wordless
        have hnone : after? .distinct (text ++ (between ++ (source ++ tail))) = none := by
          rw [← List.append_assoc]
          exact hseals _ (by simp [htext.ne_nil]) (List.suffix_refl _) _
        rw [List.nil_append, fieldListAfter?, hblanks.afterBlanks?_append hne hentries,
          Option.bind_some, hnone]
        exact hspaced lead hlead
  have hheadSeals : Seals Keyword.load.letters head :=
    hhead.seals (by decide) (Heading.pieces_ne (by decide) (.inl (by decide)))
  have htextLine : '\n' ∉ text := by
    simp only [List.mem_append, not_or] at honeLine
    exact honeLine.2.2.2.2.1
  rw [readFields_eq, fieldList?_eq, search?_after?_append hheadSeals hlist]
  exact fieldsIn_of_writes htext htextLine

end CanonicalLoad

end QlikMigration.Script
