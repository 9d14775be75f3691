import QlikMigration.Proofs.JoinWords
import QlikMigration.Proofs.PassedOver

/-!
# When a script cannot be read

A line that is handled as a load and announces a join without a table cannot be
read, and no other line fails. The first such line that is looked at stops the
reading of its script. All this is said of scripts without the dotted capital I;
their statement lines have no such letter either, because a text without spaces
that stands in a statement line stands in the script.

A resident load without a source is no failure yet. It comes from a line with the
word `RESIDENT`, but without `FROM`, in which no word follows a `RESIDENT`.
-/

namespace QlikMigration.Script

open QlikMigration.Text

/-! ## The text of statement lines -/

section Parts

variable {part front back : List Char} {c : Char}

theorem prefix_of_prefix_append_cons (hc : c ∉ part) (h : part <+: front ++ c :: back) :
    part <+: front := by
  have hfront : front ++ [c] <+: front ++ c :: back := ⟨back, by simp⟩
  rcases List.prefix_or_prefix_of_prefix h hfront with hpart | hlong
  · rcases List.prefix_concat_iff.mp hpart with rfl | hshort
    · exact absurd (by simp) hc
    · exact hshort
  · exact absurd (hlong.subset (by simp)) hc

/-- A part stands on one side of a character that it does not have. -/
theorem infix_or_infix_of_not_mem (hc : c ∉ part) (h : part <:+: front ++ c :: back) :
    part <:+: front ∨ part <:+: back := by
  obtain ⟨tail, hpart, htail⟩ := List.infix_iff_prefix_suffix.mp h
  rcases suffix_append_cases htail with hback | ⟨tail, rfl, hfront⟩
  · rcases List.suffix_cons_iff.mp hback with rfl | hrest
    · have hnil : part <+: [] := prefix_of_prefix_append_cons hc hpart
      exact Or.inl (List.prefix_nil.mp hnil ▸ List.nil_infix)
    · exact Or.inr (hpart.isInfix.trans hrest.isInfix)
  · exact Or.inl ((prefix_of_prefix_append_cons hc hpart).isInfix.trans hfront.isInfix)

end Parts

theorem before_isPrefix (part cs : List Char) : before part cs <+: cs := by
  induction cs with
  | nil => exact List.prefix_refl []
  | cons c cs ih =>
      unfold before
      by_cases hpart : part.isPrefixOf (c :: cs) = true
      · rw [if_pos hpart]
        exact List.nil_prefix
      · rw [if_neg hpart]
        exact List.cons_prefix_cons.mpr ⟨rfl, ih⟩

/-- A search gives the text before its hit. -/
theorem findFirstAfter?_isPrefix {α : Type} {recognise : Option Char → List Char → Option α}
    {prev : Option Char} {cs front : List Char} {hit : α}
    (h : findFirstAfter? recognise prev cs = some (front, hit)) : front <+: cs := by
  obtain ⟨rest, rfl, -, -⟩ := exists_of_findFirstAfter? h
  exact List.prefix_append front rest

theorem withoutRemark_isPrefix (line : List Char) : withoutRemark line <+: line := by
  unfold withoutRemark
  split
  · next hfound => exact findFirstAfter?_isPrefix hfound
  · exact List.prefix_refl line

theorem trimOf_isInfix (p : Char → Bool) (cs : List Char) : trimOf p cs <:+: cs := by
  obtain ⟨front, back, hcut, -, -⟩ := (stripped_trimOf p cs).around
  exact ⟨front, back, by rw [List.append_assoc, ← hcut]⟩

theorem trim_isInfix (cs : List Char) : trim cs <:+: cs :=
  trimOf_isInfix isBlank cs

theorem cleanLine_isInfix (line : List Char) : cleanLine line <:+: line :=
  ((trim_isInfix _).trans (withoutRemark_isPrefix _).isInfix).trans (before_isPrefix _ line).isInfix

/-- A text without spaces that stands in a gathered line stands in one of the lines. -/
theorem infix_of_mem_gather {part pending line : List Char} {lines : List (List Char)}
    (hspace : ' ' ∉ part) (hline : line ∈ gather pending lines) (h : part <:+: line) :
    part <:+: pending ∨ ∃ raw ∈ lines, part <:+: raw := by
  induction lines generalizing pending with
  | nil =>
      rw [gather] at hline
      split at hline
      · cases hline
      · rw [List.mem_singleton.mp hline] at h
        exact Or.inl h
  | cons first lines ih =>
      have htext : part <:+: (if pending.isEmpty then first else pending ++ ' ' :: first) →
          part <:+: pending ∨ ∃ raw ∈ first :: lines, part <:+: raw := by
        split
        · exact fun hfirst => Or.inr ⟨first, List.mem_cons_self, hfirst⟩
        · intro hjoined
          rcases infix_or_infix_of_not_mem hspace hjoined with hpending | hfirst
          · exact Or.inl hpending
          · exact Or.inr ⟨first, List.mem_cons_self, hfirst⟩
      rw [gather] at hline
      split at hline
      · rcases List.mem_cons.mp hline with rfl | hlater
        · exact htext h
        · rcases ih hlater with hnil | ⟨raw, hraw, hpart⟩
          · exact Or.inl (hnil.trans List.nil_infix)
          · exact Or.inr ⟨raw, List.mem_cons_of_mem first hraw, hpart⟩
      · rcases ih hline with hpending | ⟨raw, hraw, hpart⟩
        · exact htext hpending
        · exact Or.inr ⟨raw, List.mem_cons_of_mem first hraw, hpart⟩

/-- A text without spaces that stands in a statement line stands in the script. -/
theorem infix_of_mem_statementLines {part line script : List Char} (hspace : ' ' ∉ part)
    (hline : line ∈ statementLines script) (h : part <:+: line) : part <:+: script := by
  rcases infix_of_mem_gather hspace hline h with hnil | ⟨cleaned, hcleaned, hpart⟩
  · exact hnil.trans List.nil_infix
  · obtain ⟨raw, hraw, rfl⟩ := List.mem_map.mp (List.mem_filter.mp hcleaned).1
    exact (hpart.trans (cleanLine_isInfix raw)).trans (infix_of_mem_splitOn hraw)

/-- The statement lines of a script have no dotted I that the script does not have. -/
theorem dottedI_not_mem_of_statementLines {script line : List Char} (hscript : dottedI ∉ script)
    (hline : line ∈ statementLines script) : dottedI ∉ line := by
  intro hmem
  have hpart : [dottedI] <:+: script :=
    infix_of_mem_statementLines (by decide) hline ((List.singleton_infix_iff _ _).mpr hmem)
  exact hscript (hpart.subset List.mem_cons_self)

/-! ## Lines that cannot be read -/

/-- Whether a line is handled as a load, and not as an assignment or a mapping load. -/
def takenForLoad (line : List Char) : Bool :=
  !isAssignment line && !isMappingLoad line && isLoad line

/-- A line is read like a load exactly if it is taken for one. -/
theorem readLine_of_takenForLoad {line : List Char} (h : takenForLoad line = true) :
    readLine line = (readLoad line).map fun load => some (.load load) := by
  simp only [takenForLoad, Bool.and_eq_true, Bool.not_eq_true'] at h
  obtain ⟨⟨hassign, hmapping⟩, hload⟩ := h
  rw [readLine, hassign, hmapping, hload]
  rfl

theorem readLine_of_not_takenForLoad {line : List Char} (h : takenForLoad line = false) :
    ∃ result, readLine line = .ok result ∧ ∀ load, result ≠ some (.load load) := by
  rw [readLine]
  by_cases hassign : isAssignment line = true
  · rw [if_pos hassign]
    refine ⟨_, rfl, fun load => ?_⟩
    cases readAssignment? line <;> simp
  · rw [if_neg hassign]
    by_cases hmapping : isMappingLoad line = true
    · rw [if_pos hmapping]
      exact ⟨_, rfl, fun load => by simp⟩
    · have hload : isLoad line = false := by simpa [takenForLoad, hassign, hmapping] using h
      rw [if_neg hmapping, hload]
      exact ⟨none, rfl, fun load => by simp⟩

/-- A line cannot be read exactly if it is taken for a load and has a join without a
table. -/
theorem readLine_eq_error_iff {line : List Char} (hdotted : dottedI ∉ line) (error : ReadError) :
    readLine line = .error error ↔
      error = .joinWithoutTable ∧ takenForLoad line = true ∧ BareJoin line := by
  by_cases hload : takenForLoad line = true
  · have hjoin := readJoin_eq_error_iff hdotted error
    rw [readLine_of_takenForLoad hload, readLoad]
    cases hread : readJoin line with
    | error cause =>
        rw [hread] at hjoin
        simpa [Except.map, hload] using hjoin
    | ok join =>
        rw [hread] at hjoin
        simpa [Except.map, hload] using hjoin
  · obtain ⟨result, hread, -⟩ := readLine_of_not_takenForLoad (Bool.eq_false_iff.mpr hload)
    rw [hread]
    simp [hload]

/-! ## Scripts that cannot be read -/

/-- If lines can fail in one way only, they fail so exactly if one of them does. -/
theorem lineResults_eq_error_iff {lines : List (List Char)} (cause : ReadError)
    (hcause : ∀ line ∈ lines, ∀ error, readLine line = .error error → error = cause)
    {error : ReadError} :
    lineResults lines = .error error ↔
      error = cause ∧ ∃ line ∈ lines, readLine line = .error cause := by
  induction lines with
  | nil => simp
  | cons line lines ih =>
      have hlater := ih fun other hother => hcause other (List.mem_cons_of_mem line hother)
      cases hline : readLine line with
      | error found =>
          obtain rfl : found = cause := hcause line List.mem_cons_self found hline
          rw [lineResults_cons_of_error hline]
          simp [hline, eq_comm]
      | ok result =>
          rw [lineResults_cons_of_ok hline]
          simp only [List.exists_mem_cons_iff, hline, reduceCtorEq, false_or]
          rw [← hlater]
          cases lineResults lines <;> simp [Except.map]

/-- Some line of a script that is looked at is taken for a load and has a join without a
table. The first such line stops the reading. -/
def ReachesBareJoin (script : String) : Prop :=
  ∃ line ∈ lookedAt false (statementLines script.toList),
    takenForLoad line = true ∧ BareJoin line

theorem mem_of_mem_lookedAt {skip : Bool} {lines : List (List Char)} {line : List Char}
    (h : line ∈ lookedAt skip lines) : line ∈ lines := by
  fun_induction lookedAt skip lines with
  | case1 => exact h
  | case2 first rest ih => exact List.mem_cons_of_mem first (ih h)
  | case3 first rest ih =>
      rcases List.mem_cons.mp h with rfl | hrest
      · exact List.mem_cons_self
      · exact List.mem_cons_of_mem first (ih hrest)

/-- A script cannot be read exactly if a join without a table is reached. -/
theorem readScript_eq_error_iff {script : String} (hdotted : dottedI ∉ script.toList)
    {error : ReadError} :
    readScript script = .error error ↔ error = .joinWithoutTable ∧ ReachesBareJoin script := by
  have hlines : ∀ line ∈ lookedAt false (statementLines script.toList), dottedI ∉ line :=
    fun line hline => dottedI_not_mem_of_statementLines hdotted (mem_of_mem_lookedAt hline)
  have hread : readScript script = lineResults (lookedAt false (statementLines script.toList)) :=
    readLines_fst _ _
  rw [hread, lineResults_eq_error_iff .joinWithoutTable]
  · refine and_congr_right fun _ => exists_congr fun line => and_congr_right fun hline => ?_
    simpa using readLine_eq_error_iff (hlines line hline) .joinWithoutTable
  · intro line hline cause hcause
    exact ((readLine_eq_error_iff (hlines line hline) cause).mp hcause).1

/-! ## Resident loads without a source -/

section Search

variable {α : Type}

/-- A search finds nothing exactly if nothing is recognised anywhere. -/
theorem search?_eq_none_iff {recognise : List Char → Option α} {cs : List Char} :
    search? recognise cs = none ↔ ∀ part, part <:+ cs → recognise part = none := by
  rw [search?, Option.map_eq_none_iff, ← Option.not_isSome_iff_eq_none, findFirst?,
    isSome_findFirstAfter?_iff]
  constructor
  · rintro h part ⟨front, hfront⟩
    by_contra hsome
    exact h ⟨front, part, hfront.symm, Option.isSome_iff_ne_none.mpr hsome⟩
  · rintro h ⟨front, part, rfl, hpart⟩
    rw [h part (List.suffix_append front part)] at hpart
    cases hpart

/-- A search gives what is recognised at the first place where something is. -/
theorem search?_eq_some_iff {recognise : List Char → Option α} {cs : List Char} {hit : α} :
    search? recognise cs = some hit ↔
      ∃ front rest, cs = front ++ rest ∧ recognise rest = some hit ∧
        ∀ part, part ≠ [] → part <:+ front → recognise (part ++ rest) = none := by
  rw [search?, findFirst?]
  constructor
  · intro h
    obtain ⟨⟨front, found⟩, hfound, rfl⟩ := Option.map_eq_some_iff.mp h
    obtain ⟨rest, rfl, hhit, hearlier⟩ := exists_of_findFirstAfter? hfound
    refine ⟨front, rest, rfl, hhit, ?_⟩
    rintro part hne ⟨start, hstart⟩
    exact hearlier start part hstart.symm hne
  · rintro ⟨front, rest, rfl, hhit, hearlier⟩
    rw [findFirstAfter?_append (fun part hne hpart _ => hearlier part hne hpart),
      findFirstAfter?_of_eq_some hhit]
    rfl

/-- A keyword that is searched for with something after it that is no part of a word is a word
of its own. -/
theorem hasWord_of_searchWord? {keyword : Keyword} {next? : List Char → Option α}
    (hnext : ∀ rest hit, next? rest = some hit → startsWord rest = false) {line : List Char}
    (h : (searchWord? keyword next? line).isSome = true) : hasWord keyword line = true := by
  rw [searchWord?, Option.isSome_map, findFirst?, isSome_findFirstAfter?_iff] at h
  obtain ⟨front, part, rfl, hpart⟩ := h
  rw [Option.or_none] at hpart
  by_cases hstart : wordMayStart front.getLast? = true
  · rw [if_pos hstart] at hpart
    obtain ⟨hit, hhit⟩ := Option.isSome_iff_exists.mp hpart
    obtain ⟨tail, htail, hafter⟩ := Option.bind_eq_some_iff.mp hhit
    exact hasWord_iff.mpr ⟨front, part, tail, rfl, hstart, htail, hnext tail hit hafter⟩
  · rw [if_neg hstart] at hpart
    cases hpart

end Search

theorem startsWord_of_afterBlanks? {cs rest : List Char} (h : afterBlanks? cs = some rest) :
    startsWord cs = false := by
  obtain ⟨gap, hgap, hne, -, rfl⟩ := afterBlanks?_eq_some_iff.mp h
  exact (Separator.writes_gap_iff.mpr ⟨hgap, hne⟩).startsWord_append rest

/-- A source in brackets stands after the word `FROM`. -/
theorem hasWord_of_hasBracketedSource {line : List Char} (h : hasBracketedSource line = true) :
    hasWord .fromSource line = true := by
  refine hasWord_of_searchWord? (fun rest hit hbracket => ?_) h
  obtain ⟨tail, hblanks, -⟩ := Option.bind_eq_some_iff.mp hbracket
  exact startsWord_of_afterBlanks? hblanks

/-- A line has the word `RESIDENT`, but not `FROM`, and no `RESIDENT` is followed by white
space and a word. -/
def UnnamedResident (line : List Char) : Prop :=
  hasWord .resident line = true ∧ hasWord .fromSource line = false ∧
    ∀ front found gap c rest, Spells Keyword.resident.letters found → Blanks gap → gap ≠ [] →
      line = front ++ (found ++ (gap ++ c :: rest)) → isWord c = false

/-- No name is found after `RESIDENT` exactly if no word follows one. -/
theorem runAfter?_resident_eq_none_iff {line : List Char} :
    runAfter? .resident isWord line = none ↔
      ∀ front found gap c rest, Spells Keyword.resident.letters found → Blanks gap → gap ≠ [] →
        line = front ++ (found ++ (gap ++ c :: rest)) → isWord c = false := by
  rw [runAfter?, search?_eq_none_iff]
  constructor
  · rintro h front found gap c rest hfound hgap hne rfl
    by_contra hword
    rw [Bool.not_eq_false] at hword
    have hflush : Flush (c :: rest) := by
      intro d hd
      obtain rfl : c = d := by simpa using hd
      by_contra hblank
      rw [Bool.not_eq_false] at hblank
      rw [isWord_of_isBlank hblank] at hword
      exact Bool.false_ne_true hword
    have hafter : after? .resident (found ++ (gap ++ c :: rest)) = some (gap ++ c :: rest) :=
      afterLetters?_eq_some_iff.mpr ⟨found, hfound, rfl⟩
    have hnone := h _ (List.suffix_append front _)
    rw [afterSpaced?, hafter, Option.bind_some, hgap.afterBlanks?_append hne hflush] at hnone
    simp [hword] at hnone
  · rintro h part ⟨front, rfl⟩
    by_contra hsome
    obtain ⟨run, hrun⟩ := Option.ne_none_iff_exists'.mp hsome
    obtain ⟨rest, hspaced, hrest⟩ := Option.bind_eq_some_iff.mp hrun
    obtain ⟨tail, hafter, hblanks⟩ := Option.bind_eq_some_iff.mp hspaced
    obtain ⟨found, hfound, rfl⟩ := afterLetters?_eq_some_iff.mp hafter
    obtain ⟨gap, hgap, hne, -, rfl⟩ := afterBlanks?_eq_some_iff.mp hblanks
    cases rest with
    | nil => simp at hrest
    | cons c rest => simp [h front found gap c rest hfound hgap hne rfl] at hrest

/-- Which lines have the origin of a resident load without a source. -/
theorem readOrigin_resident_iff {line : List Char} :
    ((readOrigin line).kind = .resident ∧ (readOrigin line).source = none) ↔
      UnnamedResident line := by
  rw [UnnamedResident, ← runAfter?_resident_eq_none_iff, readOrigin]
  by_cases hbracket : hasBracketedSource line = true
  · simp [hbracket, hasWord_of_hasBracketedSource hbracket]
  · by_cases hfrom : hasWord .fromSource line = true
    · simp [hbracket, hfrom]
    · by_cases hresident : hasWord .resident line = true
      · simp [hbracket, hfrom, hresident]
      · by_cases hrows : hasWord .inlineRows line = true <;>
          simp [hbracket, hfrom, hresident, hrows]

/-- A statement line that gives a load is read as a load. -/
theorem readLoad_of_readLine {line : List Char} {load : Load}
    (h : readLine line = .ok (some (.load load))) : readLoad line = .ok load := by
  by_cases hload : takenForLoad line = true
  · rw [readLine_of_takenForLoad hload] at h
    cases hread : readLoad line with
    | error error =>
        rw [hread] at h
        cases h
    | ok result =>
        rw [hread] at h
        cases h
        rfl
  · obtain ⟨result, hread, hresult⟩ := readLine_of_not_takenForLoad (Bool.eq_false_iff.mpr hload)
    rw [hread, Except.ok.injEq] at h
    exact absurd h (hresult load)

/-- Each statement of a script is read from one of its statement lines. -/
theorem exists_line_of_mem {script : String} {statements : List Statement} {statement : Statement}
    (hread : readScript script = .ok statements) (hmem : statement ∈ statements) :
    ∃ line ∈ statementLines script.toList, readLine line = .ok (some statement) := by
  have hlines : lineResults (lookedAt false (statementLines script.toList)) = .ok statements := by
    rw [← hread]
    exact (readLines_fst _ _).symm
  obtain ⟨line, hline, hstatement⟩ := exists_readLine_of_mem_lineResults hlines hmem
  exact ⟨line, mem_of_mem_lookedAt hline, hstatement⟩

/-- The parts of a load that is read from a line. -/
theorem exists_readJoin_of_readLine {line : List Char} {load : Load}
    (h : readLine line = .ok (some (.load load))) :
    ∃ join, readJoin line = .ok join ∧
      load = { kind := (readOrigin line).kind
               label := (loadLabel? line).map String.ofList
               fields := readFields line
               source := (readOrigin line).source
               condition := (readCondition? line).map String.ofList
               grouping := readGrouping? line
               ordering := readOrdering? line
               join := join
               distinct := hasWord .distinct line
               rows := (readOrigin line).rows } := by
  have hread := readLoad_of_readLine h
  rw [readLoad] at hread
  cases hjoin : readJoin line with
  | error error =>
      rw [hjoin] at hread
      cases hread
  | ok join =>
      rw [hjoin] at hread
      cases hread
      exact ⟨join, rfl, rfl⟩

/-- A load that is read from a line has the origin that the line gives. -/
theorem origin_of_readLine {line : List Char} {load : Load}
    (h : readLine line = .ok (some (.load load))) :
    load.kind = (readOrigin line).kind ∧ load.source = (readOrigin line).source := by
  obtain ⟨join, -, rfl⟩ := exists_readJoin_of_readLine h
  exact ⟨rfl, rfl⟩

end QlikMigration.Script
