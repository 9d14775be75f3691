import QlikMigration.Proofs.FieldReading
import QlikMigration.Proofs.JoinWords

/-!
# Canonical loads are read back

A canonical load is read as the load it was meant to be, whatever its layout:
its line is taken for a load, each clause is found where it stands, a clause
that is absent is not found elsewhere, and its label or join is read from the
start of the line.
-/

namespace QlikMigration.Script

open QlikMigration.Text

/-! ## Clauses that may be absent -/

/-- A clause further on is located behind all clauses before it. -/
theorem Located.skip {clause target : Clause} {front : List Piece} (before : List Clause)
    {after : List Clause} {line : List Char}
    (h : Located clause front (before ++ target :: after) line) :
    Located target (front ++ (clause :: before).flatMap fun other => other.row.closedBy .gap)
      after line := by
  induction before generalizing clause front with
  | nil => simpa using h.next
  | cons next before ih =>
      have hlater := ih h.next
      simpa using hlater

/-- Pieces and clauses that omit a keyword do not have it before a further clause. -/
theorem ne_word_of_omits {front : List Piece} {clauses : List Clause} {keyword : Keyword}
    (hfront : ∀ piece ∈ front, piece.1 ≠ .word keyword)
    (hclauses : ∀ clause ∈ clauses, clause.row.Omits keyword) :
    ∀ piece ∈ front ++ clauses.flatMap fun clause => clause.row.closedBy .gap,
      piece.1 ≠ .word keyword := by
  intro piece hpiece
  rcases List.mem_append.mp hpiece with hmem | hmem
  · exact hfront piece hmem
  · obtain ⟨clause, hclause, hmem⟩ := List.mem_flatMap.mp hmem
    intro heq
    apply hclauses clause hclause
    rw [← heq, ← Row.map_fst_closedBy clause.row .gap]
    exact List.mem_map_of_mem hmem

theorem Clause.omits_source {source : Source} {reserved : Keyword}
    (hreserved : reserved ∈ reservedWords) (hfrom : reserved ≠ .fromSource)
    (hresident : reserved ≠ .resident) : (Clause.source source).row.Omits reserved := by
  apply Clause.omits_row hreserved
  cases source with
  | file path => exact Ne.symm hfrom
  | table name => exact Ne.symm hresident

theorem Clause.omits_conditions {condition : Option Phrase} {reserved : Keyword}
    (hreserved : reserved ∈ reservedWords) (hne : reserved ≠ .whereRows) :
    ∀ clause ∈ (condition.map Clause.condition).toList, clause.row.Omits reserved := by
  intro clause hclause
  obtain ⟨test, -, rfl⟩ := Option.map_eq_some_iff.mp (Option.mem_toList.mp hclause)
  exact Clause.omits_row hreserved (Ne.symm hne)

theorem Clause.omits_groupings {grouping : Option (Listing Identifier)} {reserved : Keyword}
    (hreserved : reserved ∈ reservedWords) (hne : reserved ≠ .group) :
    ∀ clause ∈ (grouping.map Clause.grouping).toList, clause.row.Omits reserved := by
  intro clause hclause
  obtain ⟨names, -, rfl⟩ := Option.map_eq_some_iff.mp (Option.mem_toList.mp hclause)
  exact Clause.omits_row hreserved (Ne.symm hne)

theorem Clause.omits_sortings {sorting : Option Sorting} {reserved : Keyword}
    (hreserved : reserved ∈ reservedWords) (hne : reserved ≠ .order) :
    ∀ clause ∈ (sorting.map Clause.sorting).toList, clause.row.Omits reserved := by
  intro clause hclause
  obtain ⟨order, -, rfl⟩ := Option.map_eq_some_iff.mp (Option.mem_toList.mp hclause)
  exact Clause.omits_row hreserved (Ne.symm hne)

section Clauses

variable {source : Source} {front : List Piece} {line : List Char} {condition : Option Phrase}
  {grouping : Option (Listing Identifier)} {sorting : Option Sorting}

/-- The condition of a statement, if it has one. -/
theorem readCondition?_eq {rest : List Clause}
    (h : Located (.source source) front ((condition.map .condition).toList ++ rest) line)
    (honeLine : '\n' ∉ line) (hfront : ∀ piece ∈ front, piece.1 ≠ .word .whereRows)
    (hrest : ∀ clause ∈ rest, clause.keyword = .group ∨ clause.keyword = .order) :
    readCondition? line = condition.map Phrase.chars := by
  have hsource : (Clause.source source).row.Omits .whereRows :=
    Clause.omits_source (by decide) (by decide) (by decide)
  cases condition with
  | none =>
      have hlacks : Lacks Keyword.whereRows.letters line := by
        apply h.lacks (by decide) hfront
        intro clause hclause
        rcases List.mem_cons.mp hclause with rfl | hmem
        · exact hsource
        · apply Clause.omits_row (by decide)
          rcases hrest clause hmem with hkeyword | hkeyword <;> rw [hkeyword] <;> decide
      rw [readCondition?, searchWord?_eq_none hlacks]
      rfl
  | some test =>
      refine readCondition?_of_located (h.skip []) honeLine (ne_word_of_omits hfront ?_) ?_
      · simpa using hsource
      · intro next hnext
        exact hrest next (List.mem_of_mem_head? hnext)

/-- The grouping of a statement, if it has one. -/
theorem readGrouping?_eq
    (h : Located (.source source) front ((condition.map .condition).toList ++
      ((grouping.map .grouping).toList ++ (sorting.map .sorting).toList)) line)
    (honeLine : '\n' ∉ line) (hfront : ∀ piece ∈ front, piece.1 ≠ .word .group) :
    readGrouping? line = grouping.map fun names => names.toList.map fun name => name.text := by
  have hbefore : ∀ clause ∈ .source source :: (condition.map Clause.condition).toList,
      clause.row.Omits .group := by
    intro clause hclause
    rcases List.mem_cons.mp hclause with rfl | hmem
    · exact Clause.omits_source (by decide) (by decide) (by decide)
    · exact Clause.omits_conditions (by decide) (by decide) clause hmem
  cases grouping with
  | none =>
      have hlacks : Lacks Keyword.group.letters line := by
        apply h.lacks (by decide) hfront
        intro clause hclause
        rw [← List.cons_append] at hclause
        rcases List.mem_append.mp hclause with hmem | hmem
        · exact hbefore clause hmem
        · exact Clause.omits_sortings (by decide) (by decide) clause hmem
      rw [readGrouping?, searchWord?_eq_none hlacks]
      rfl
  | some names =>
      refine readGrouping?_of_located (h.skip _) honeLine (ne_word_of_omits hfront hbefore) ?_
      intro next hnext
      have hmem : next ∈ (sorting.map Clause.sorting).toList := List.mem_of_mem_head? hnext
      obtain ⟨order, -, rfl⟩ := Option.map_eq_some_iff.mp (Option.mem_toList.mp hmem)
      rfl

/-- The sort order of a statement, if it has one. -/
theorem readOrdering?_eq
    (h : Located (.source source) front ((condition.map .condition).toList ++
      ((grouping.map .grouping).toList ++ (sorting.map .sorting).toList)) line)
    (honeLine : '\n' ∉ line) (hfront : ∀ piece ∈ front, piece.1 ≠ .word .order) :
    readOrdering? line = sorting.map Sorting.ordering := by
  have hbefore : ∀ clause ∈ .source source :: ((condition.map Clause.condition).toList ++
      (grouping.map Clause.grouping).toList), clause.row.Omits .order := by
    intro clause hclause
    rcases List.mem_cons.mp hclause with rfl | hmem
    · exact Clause.omits_source (by decide) (by decide) (by decide)
    · rcases List.mem_append.mp hmem with hcondition | hgrouping
      · exact Clause.omits_conditions (by decide) (by decide) clause hcondition
      · exact Clause.omits_groupings (by decide) (by decide) clause hgrouping
  rw [← List.append_assoc] at h
  cases sorting with
  | none =>
      have hlacks : Lacks Keyword.order.letters line := by
        refine h.lacks (by decide) hfront fun clause hclause => hbefore clause ?_
        simpa using hclause
      rw [readOrdering?, searchWord?_eq_none hlacks]
      rfl
  | some order =>
      exact readOrdering?_of_located (h.skip _) honeLine (ne_word_of_omits hfront hbefore)

end Clauses

/-! ## Headings -/

/-- Two keywords are not found in a text that lacks the second. -/
theorem afterPair?_eq_none_of_lacks {first second : Keyword} {cs : List Char}
    (h : Lacks second.letters cs) : afterPair? first second cs = none := by
  by_contra hsome
  obtain ⟨rest, hrest⟩ := Option.ne_none_iff_exists'.mp hsome
  obtain ⟨front, gap, back, -, -, -, hback, rfl⟩ := afterPair?_eq_some_iff.mp hrest
  have hnone := h (back ++ rest) ⟨front ++ gap, by simp⟩
  rw [afterLetters?_eq_some_iff.mpr ⟨back, hback, rfl⟩] at hnone
  cases hnone

/-- A line that lacks `JOIN` announces no join. -/
theorem readJoin_of_lacks {line : List Char} (h : Lacks Keyword.join.letters line) :
    readJoin line = .ok none := by
  have hjoin : after? .join line = none := h line (List.suffix_refl line)
  have hwords : afterJoinWords? line = none := by
    simp [afterJoinWords?, afterPair?_eq_none_of_lacks h, hjoin]
  rw [readJoin, hwords]

/-- A word without a colon after it is no label. -/
theorem loadLabel?_word_append {word rest : List Char} (hword : word.all isWord = true)
    (hrest : startsWord rest = false) (hcolon : [':'].isPrefixOf? rest = none) :
    loadLabel? (word ++ rest) = none := by
  obtain ⟨hrun, hafter⟩ := wordRun_append hword hrest
  rw [loadLabel?, labelAt?, hrun, hafter, hcolon]
  cases word <;> rfl

theorem isPrefixOf?_colon_of_isBlank {c : Char} (hc : isBlank c = true) (rest : List Char) :
    [':'].isPrefixOf? (c :: rest) = none := by
  have hne : ¬ ':' = c := by
    rintro rfl
    exact absurd hc (by decide)
  simp [List.isPrefixOf?, hne]

/-- A word with white space after it is no label. -/
theorem loadLabel?_eq_none {word between : List Char} (hword : word.all isWord = true)
    (hbetween : Separator.gap.Writes between) (rest : List Char) :
    loadLabel? (word ++ (between ++ rest)) = none := by
  obtain ⟨hblanks, hne⟩ := Separator.writes_gap_iff.mp hbetween
  obtain ⟨c, between, rfl⟩ := List.exists_cons_of_ne_nil hne
  exact loadLabel?_word_append hword (hbetween.startsWord_append rest)
    (isPrefixOf?_colon_of_isBlank (hblanks c List.mem_cons_self) _)

/-- A name with a colon after it is a label. -/
theorem labelAt?_append (name : Identifier) (rest : List Char) :
    labelAt? (name.chars ++ ':' :: rest) = some (name.chars, rest) := by
  have hcolon : startsWord (':' :: rest) = false := rfl
  obtain ⟨hrun, hafter⟩ := wordRun_append name.word hcolon
  rw [labelAt?, hrun, hafter]
  simp [name.solid.ne_nil, List.isPrefixOf?]

theorem loadLabel?_of_label (name : Identifier) {trail : List Char} (htrail : Blanks trail)
    (rest : List Char) :
    loadLabel? (name.chars ++ ':' :: (trail ++ (Keyword.load.letters ++ rest))) =
      some name.chars := by
  have hflush : Flush (Keyword.load.letters ++ rest) :=
    Keyword.load.solid.flush.append Keyword.load.solid.ne_nil rest
  rw [loadLabel?, labelAt?_append, Option.bind_some]
  simp [htrail.skipBlanks_append hflush]

theorem JoinKind.all_isWord_keyword (kind : JoinKind) : kind.keyword.letters.all isWord = true := by
  cases kind <;> decide

/-- A join is read back from its words and its table. -/
theorem readJoin_append (kind : JoinKind) (table : Identifier) {between lead trail : List Char}
    (hbetween : Separator.gap.Writes between) (hlead : Blanks lead) (htrail : Blanks trail)
    (hne : trail ≠ []) (rest : List Char) :
    readJoin (kind.keyword.letters ++ (between ++ (Keyword.join.letters ++ (lead ++ '(' ::
      (table.chars ++ ')' :: (trail ++ (Keyword.load.letters ++ rest))))))) =
      .ok (some ⟨kind, table.text, none⟩) := by
  obtain ⟨hblanks, hgap⟩ := Separator.writes_gap_iff.mp hbetween
  have hwords : JoinWords kind (kind.keyword.letters ++ (between ++ Keyword.join.letters)) :=
    .named kind kind.keyword.spells_letters hblanks hgap Keyword.join.spells_letters
  have hdotted : dottedI ∉ kind.keyword.letters ++ (between ++ Keyword.join.letters) := by
    have hkind : dottedI ∉ kind.keyword.letters := by cases kind <;> decide
    have hjoin : dottedI ∉ Keyword.join.letters := by decide
    simp [hkind, hblanks.not_mem (show isBlank dottedI = false by decide), hjoin]
  have hread := hwords.readJoin_append hdotted (lead ++ '(' :: (table.chars ++ ')' ::
    (trail ++ (Keyword.load.letters ++ rest))))
  rw [joinTable?_append table hlead htrail hne rest, List.append_assoc, List.append_assoc] at hread
  exact hread

/-- The written forms of a join before a load. -/
theorem Heading.exists_of_join {kind : JoinKind} {table : Identifier} {head : List Char}
    (h : Written (Heading.join kind table).pieces head) :
    ∃ between lead trail, Separator.gap.Writes between ∧ Blanks lead ∧ Blanks trail ∧
      trail ≠ [] ∧ head = kind.keyword.letters ++ (between ++ (Keyword.join.letters ++ (lead ++
        '(' :: (table.chars ++ ')' :: trail)))) := by
  obtain ⟨between, _, hbetween, hmore, rfl⟩ := Written.cons_iff.mp h
  obtain ⟨_, _, hopening, hlast, rfl⟩ := Written.cons_iff.mp hmore
  obtain ⟨_, _, hclosing, hnil, rfl⟩ := Written.cons_iff.mp hlast
  cases hnil
  obtain ⟨lead, hlead, rfl⟩ := Separator.writes_opening_iff.mp hopening
  obtain ⟨trail, htrail, hne, rfl⟩ := Separator.writes_closing_iff.mp hclosing
  exact ⟨between, lead, trail, hbetween, hlead, htrail, hne, by simp [Token.chars]⟩

/-- The written forms of a label. -/
theorem exists_of_written_label {name : Identifier} {head : List Char}
    (h : Written [(.phrase name.toPhrase, .colon)] head) :
    ∃ trail, Blanks trail ∧ head = name.chars ++ ':' :: trail := by
  obtain ⟨_, _, hcolon, hnil, rfl⟩ := Written.cons_iff.mp h
  cases hnil
  obtain ⟨trail, htrail, rfl⟩ := Separator.writes_colon_iff.mp hcolon
  exact ⟨trail, htrail, by simp [Token.chars]⟩

/-! ## Loads -/

/-- The keywords that open the clauses of a load. -/
def clauseWords : List Keyword :=
  [.fromSource, .resident, .whereRows, .group, .order]

/-- The reserved words that have no place in a load. -/
def foreignWords : List Keyword :=
  [.letVariable, .setVariable, .mapping, .remark]

namespace CanonicalLoad

variable {load : CanonicalLoad} {line : List Char}

/-- The reserved words before the source of a load. -/
theorem opening_ne {reserved : Keyword} (hreserved : reserved ∈ reservedWords)
    (hload : reserved ≠ .load) (hjoin : reserved ≠ .join ∨ load.heading.join? = none)
    (hdistinct : reserved ≠ .distinct ∨ load.distinct = false) :
    ∀ piece ∈ load.opening, piece.1 ≠ .word reserved := by
  intro piece hpiece
  rw [opening, List.mem_append, List.mem_cons, List.mem_append] at hpiece
  rcases hpiece with hheading | rfl | hword | hentry
  · exact Heading.pieces_ne hreserved hjoin piece hheading
  · simpa using Ne.symm hload
  · by_cases hcases : load.distinct = true
    · rw [if_pos hcases] at hword
      obtain rfl : piece = (.word .distinct, .gap) := by simpa using hword
      rcases hdistinct with hother | hnone
      · simpa using Ne.symm hother
      · rw [hnone] at hcases
        cases hcases
    · rw [if_neg hcases] at hword
      cases hword
  · have homits : (load.entries.row Entry.row).Omits reserved :=
      load.entries.omits_row fun entry => entry.omits_row reserved
    intro heq
    apply homits
    rw [← heq, ← Row.map_fst_closedBy _ .gap]
    exact List.mem_map_of_mem hentry

/-- Neither clauses nor other statements start before the source of a load. -/
theorem opening_ne_of_mem {reserved : Keyword} (h : reserved ∈ clauseWords ++ foreignWords) :
    ∀ piece ∈ load.opening, piece.1 ≠ .word reserved := by
  have hall : ∀ word ∈ clauseWords ++ foreignWords,
      word ∈ reservedWords ∧ word ≠ .load ∧ word ≠ .join ∧ word ≠ .distinct := by decide
  obtain ⟨hreserved, hload, hjoin, hdistinct⟩ := hall reserved h
  exact opening_ne hreserved hload (.inl hjoin) (.inl hdistinct)

/-- The reserved words in the clauses of a load are those that open them. -/
theorem omits_clauses {reserved : Keyword} (hreserved : reserved ∈ reservedWords)
    (hother : reserved ∉ clauseWords) :
    ∀ clause ∈ .source load.source :: load.later, clause.row.Omits reserved := by
  simp only [clauseWords, List.mem_cons, List.not_mem_nil, or_false, not_or] at hother
  obtain ⟨hfrom, hresident, hwhere, hgroup, horder⟩ := hother
  intro clause hclause
  rw [later, List.mem_cons, List.mem_append, List.mem_append] at hclause
  rcases hclause with rfl | hcondition | hgrouping | hsorting
  · exact Clause.omits_source hreserved hfrom hresident
  · exact Clause.omits_conditions hreserved hwhere clause hcondition
  · exact Clause.omits_groupings hreserved hgroup clause hgrouping
  · exact Clause.omits_sortings hreserved horder clause hsorting

/-- A load lacks the words of other statements. -/
theorem lacks_of_located (h : Located (.source load.source) load.opening load.later line)
    {reserved : Keyword} (hforeign : reserved ∈ foreignWords) : Lacks reserved.letters line := by
  have hall : ∀ word ∈ foreignWords, word ∈ reservedWords ∧ word ∉ clauseWords := by decide
  obtain ⟨hreserved, hother⟩ := hall reserved hforeign
  exact h.lacks hreserved (opening_ne_of_mem (List.mem_append_right _ hforeign))
    (omits_clauses hreserved hother)

/-- The join before a load, if it has one. -/
theorem readJoin_of_located (h : Located (.source load.source) load.opening load.later line) :
    readJoin line = .ok load.heading.join? := by
  have hnone : load.heading.join? = none → readJoin line = .ok none := fun hheading =>
    readJoin_of_lacks (h.lacks (by decide)
      (opening_ne (by decide) (by decide) (.inr hheading) (.inl (by decide)))
      (omits_clauses (by decide) (by decide)))
  obtain ⟨head, lead, distinct, text, between, source, tail, hhead, -, -, -, -, -, -, rfl⟩ :=
    exists_of_located h
  cases hheading : load.heading with
  | none => exact hnone (by rw [hheading]; rfl)
  | label name => exact hnone (by rw [hheading]; rfl)
  | join kind table =>
      rw [hheading] at hhead
      obtain ⟨gap, before, after, hgap, hbefore, hafter, hne, rfl⟩ := Heading.exists_of_join hhead
      simp only [List.append_assoc, List.cons_append]
      exact readJoin_append kind table hgap hbefore hafter hne _

/-- The label of a load, if it has one. -/
theorem loadLabel?_of_located (h : Located (.source load.source) load.opening load.later line) :
    (loadLabel? line).map String.ofList = load.heading.label? := by
  obtain ⟨head, lead, distinct, text, between, source, tail, hhead, hlead, -, -, -, -, -, rfl⟩ :=
    exists_of_located h
  cases hheading : load.heading with
  | none =>
      rw [hheading] at hhead
      cases hhead
      rw [List.nil_append, loadLabel?_eq_none (by decide) hlead]
      rfl
  | label name =>
      rw [hheading] at hhead
      obtain ⟨trail, htrail, rfl⟩ := exists_of_written_label hhead
      rw [List.append_assoc, List.cons_append, loadLabel?_of_label name htrail]
      rfl
  | join kind table =>
      rw [hheading] at hhead
      obtain ⟨gap, before, after, hgap, -, -, -, rfl⟩ := Heading.exists_of_join hhead
      rw [List.append_assoc, List.append_assoc,
        loadLabel?_eq_none kind.all_isWord_keyword hgap]
      rfl

/-- A load is distinct if the word is there. -/
theorem hasWord_distinct_of_located
    (h : Located (.source load.source) load.opening load.later line) :
    hasWord .distinct line = load.distinct := by
  cases hcases : load.distinct with
  | false =>
      exact hasWord_eq_false (h.lacks (by decide)
        (opening_ne (by decide) (by decide) (.inl (by decide)) (.inr hcases))
        (omits_clauses (by decide) (by decide)))
  | true =>
      obtain ⟨head, lead, distinct, text, between, source, tail, hhead, hlead, hdistinct, -, -, -,
        -, rfl⟩ := exists_of_located h
      rw [distinctPieces, hcases, if_pos rfl] at hdistinct
      obtain ⟨gap, _, hgap, hnil, rfl⟩ := Written.cons_iff.mp hdistinct
      cases hnil
      have hfront : Written (load.heading.pieces ++ [(.word .load, .gap)])
          (head ++ (Keyword.load.letters ++ (lead ++ []))) :=
        Written.append_iff.mpr ⟨head, _, hhead, .cons hlead .nil, rfl⟩
      have hne : ∀ piece ∈ load.heading.pieces ++ [(.word .load, .gap)],
          piece.1 ≠ .word .distinct := by
        have hheading : ∀ piece ∈ load.heading.pieces, piece.1 ≠ .word .distinct :=
          Heading.pieces_ne (by decide) (.inl (by decide))
        intro piece hpiece
        rcases List.mem_append.mp hpiece with hmem | hmem
        · exact hheading piece hmem
        · obtain rfl : piece = (.word .load, .gap) := by simpa using hmem
          decide
      have hword := hasWord_append (hfront.seals (by decide) hne) hfront.startsWordAfter
        (hgap.startsWord_append (text ++ (between ++ (source ++ tail))))
      simpa [Token.chars] using hword

/-- The line of a load has the word `LOAD`. -/
theorem isLoad_of_located (h : Located (.source load.source) load.opening load.later line) :
    isLoad line = true := by
  obtain ⟨head, lead, distinct, text, between, source, tail, hhead, hlead, -, -, -, -, -, rfl⟩ :=
    exists_of_located h
  have hheading : ∀ piece ∈ load.heading.pieces, piece.1 ≠ .word .load :=
    Heading.pieces_ne (by decide) (.inl (by decide))
  rw [isLoad, hasWord_append (hhead.seals (by decide) hheading) hhead.startsWordAfter
    (hlead.startsWord_append _)]
  rfl

end CanonicalLoad

/-- A line that lacks `LET` and `SET` is no assignment. -/
theorem isAssignment_eq_false {line : List Char} (hlet : Lacks Keyword.letVariable.letters line)
    (hset : Lacks Keyword.setVariable.letters line) : isAssignment line = false := by
  have hletNone : after? .letVariable line = none := hlet line (List.suffix_refl line)
  have hsetNone : after? .setVariable line = none := hset line (List.suffix_refl line)
  simp [isAssignment, afterAssignKeyword?, hletNone, hsetNone]

theorem afterMappingLoad?_eq_none {cs : List Char}
    (h : afterLetters? Keyword.mapping.letters cs = none) : afterMappingLoad? cs = none :=
  afterPair?_eq_none h

/-- The recogniser of the words `MAPPING LOAD` needs the first of them. -/
theorem ledBy_mappingLoad :
    LedBy Keyword.mapping.letters fun prev rest =>
      if wordMayStart prev then
        (afterMappingLoad? rest).filter fun tail => !startsWord tail
      else
        none := by
  intro prev cs h
  simp [afterMappingLoad?_eq_none h]

/-- A line that lacks `MAPPING` is no mapping load. -/
theorem isMappingLoad_eq_false {line : List Char} (h : Lacks Keyword.mapping.letters line) :
    isMappingLoad line = false := by
  rw [isMappingLoad, findFirst?, ledBy_mappingLoad.findFirstAfter?_eq_none h]
  rfl

/-- A load is read back from each of its written forms. -/
theorem CanonicalLoad.readLine_of_writesClosed {load : CanonicalLoad} {line : List Char}
    (h : load.row.WritesClosed line) (honeLine : '\n' ∉ line) :
    readLine line = .ok (some (.load load.meaning)) := by
  have hlocated : Located (.source load.source) load.opening load.later line :=
    located_of_writesClosed h
  have hassign : isAssignment line = false :=
    isAssignment_eq_false (lacks_of_located hlocated (by decide))
      (lacks_of_located hlocated (by decide))
  have hmapping : isMappingLoad line = false :=
    isMappingLoad_eq_false (lacks_of_located hlocated (by decide))
  have hcondition : readCondition? line = load.condition.map Phrase.chars := by
    refine readCondition?_eq hlocated honeLine (opening_ne_of_mem (by decide)) ?_
    intro clause hclause
    rcases List.mem_append.mp hclause with hmem | hmem
    · obtain ⟨names, -, rfl⟩ := Option.map_eq_some_iff.mp (Option.mem_toList.mp hmem)
      exact Or.inl rfl
    · obtain ⟨order, -, rfl⟩ := Option.map_eq_some_iff.mp (Option.mem_toList.mp hmem)
      exact Or.inr rfl
  have hgrouping := readGrouping?_eq hlocated honeLine (opening_ne_of_mem (by decide))
  have hordering := readOrdering?_eq hlocated honeLine (opening_ne_of_mem (by decide))
  have horigin : readOrigin line = ⟨load.source.kind, some load.source.text, none⟩ := by
    refine readOrigin_of_located hlocated ?_ ?_
    · intro keyword hkeyword
      simp only [List.mem_cons, List.not_mem_nil, or_false] at hkeyword
      rcases hkeyword with rfl | rfl
      · exact opening_ne_of_mem (by decide)
      · exact opening_ne_of_mem (by decide)
    · intro clause hclause
      rw [later, List.mem_append, List.mem_append] at hclause
      rcases hclause with hmem | hmem | hmem
      · exact Clause.omits_conditions (by decide) (by decide) clause hmem
      · exact Clause.omits_groupings (by decide) (by decide) clause hmem
      · exact Clause.omits_sortings (by decide) (by decide) clause hmem
  have hload : readLoad line = .ok load.meaning := by
    rw [readLoad, readJoin_of_located hlocated, horigin, loadLabel?_of_located hlocated,
      readFields_of_located hlocated honeLine, hcondition, hgrouping, hordering,
      hasWord_distinct_of_located hlocated]
    simp only [Except.map, Option.map_map]
    rfl
  rw [readLine, hassign, hmapping, isLoad_of_located hlocated, hload]
  rfl

end QlikMigration.Script
