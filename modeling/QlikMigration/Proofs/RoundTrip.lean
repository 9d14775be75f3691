import QlikMigration.Proofs.LoadReading

/-!
# Canonical scripts are read back

Every statement of a canonical script is read as the statement it was meant to
be, whatever the layout: each line is taken for the right kind of statement,
each clause is found where it stands, and no line is passed over. So reading
undoes printing, and it undoes every other way of writing the same statements.
-/

namespace QlikMigration.Script

open QlikMigration.Text

/-! ## Mapping loads -/

namespace CanonicalMapping

variable {mapping : CanonicalMapping} {line : List Char}

/-- The key and the value field of a mapping load. -/
def fields (mapping : CanonicalMapping) : Listing Identifier :=
  ⟨mapping.key, [mapping.value]⟩

/-- The reserved words before the source of a mapping load. -/
theorem opening_ne {reserved : Keyword} (hmapping : reserved ≠ .mapping)
    (hload : reserved ≠ .load) : ∀ piece ∈ mapping.opening, piece.1 ≠ .word reserved := by
  simp [opening, Ne.symm hmapping, Ne.symm hload]

/-- The parts of a written mapping load up to its source. -/
theorem exists_of_located (h : Located (.source (.file mapping.path)) mapping.opening
      mapping.later line) :
    ∃ trail first second text between source tail, Blanks trail ∧ Separator.gap.Writes first ∧
      Separator.gap.Writes second ∧
      (mapping.fields.row fun name => name.toPhrase.row).Writes text ∧
      Separator.gap.Writes between ∧
      (Clause.source (.file mapping.path)).row.Writes source ∧ Follows mapping.later tail ∧
      line = mapping.label.chars ++ ':' :: (trail ++ (Keyword.mapping.letters ++ (first ++
        (Keyword.load.letters ++ (second ++ (text ++ (between ++ (source ++ tail)))))))) := by
  obtain ⟨start, source, tail, hstart, hsource, htail, rfl⟩ := h
  have hopening : mapping.opening = [(.phrase mapping.label.toPhrase, .colon)] ++
      ((.word .mapping, .gap) :: (.word .load, .gap) ::
        (mapping.fields.row fun name => name.toPhrase.row).closedBy .gap) := rfl
  rw [hopening] at hstart
  obtain ⟨_, _, hlabel, hwords, rfl⟩ := Written.append_iff.mp hstart
  obtain ⟨trail, htrail, rfl⟩ := exists_of_written_label hlabel
  obtain ⟨first, _, hfirst, hmore, rfl⟩ := Written.cons_iff.mp hwords
  obtain ⟨second, _, hsecond, hfields, rfl⟩ := Written.cons_iff.mp hmore
  obtain ⟨text, between, htext, hbetween, rfl⟩ := Row.written_closedBy_iff.mp hfields
  exact ⟨trail, first, second, text, between, source, tail, htrail, hfirst, hsecond, htext,
    hbetween, hsource, htail, by simp [Token.chars]⟩

end CanonicalMapping

/-- What stands before `MAPPING LOAD` in a mapping load. -/
theorem written_label (label : Identifier) {trail : List Char} (htrail : Blanks trail) :
    Written [(.phrase label.toPhrase, .colon)] (label.chars ++ ':' :: trail) := by
  rw [← List.append_nil (':' :: trail)]
  exact .cons (Separator.writes_colon_iff.mpr ⟨trail, htrail, rfl⟩) .nil

section MappingLoad

variable (label : Identifier) {trail between : List Char}

/-- The label before `MAPPING LOAD` holds no start of `MAPPING`. -/
theorem seals_mapping_label (htrail : Blanks trail) :
    Seals Keyword.mapping.letters (label.chars ++ ':' :: trail) :=
  (written_label label htrail).seals (by decide) (by simp)

theorem afterMappingLoad?_append (hbetween : Separator.gap.Writes between) (rest : List Char) :
    afterMappingLoad? (Keyword.mapping.letters ++ (between ++ (Keyword.load.letters ++ rest))) =
      some rest :=
  afterPair?_append .mapping .load hbetween rest

/-- A search for what follows `MAPPING LOAD` passes over the label. -/
theorem search?_mappingLoad {β : Type} (htrail : Blanks trail)
    (hbetween : Separator.gap.Writes between) {next? : List Char → Option β} {rest : List Char}
    {hit : β} (hhit : next? rest = some hit) :
    search? (fun cs => (afterMappingLoad? cs).bind next?)
      (label.chars ++ ':' :: (trail ++ (Keyword.mapping.letters ++ (between ++
        (Keyword.load.letters ++ rest))))) = some hit := by
  rw [← List.cons_append, ← List.append_assoc]
  refine search?_append (fun cs hcs => ?_) (seals_mapping_label label htrail) ?_
  · rw [afterMappingLoad?_eq_none hcs]
    rfl
  · rw [afterMappingLoad?_append hbetween]
    exact hhit

/-- A label, `MAPPING` and `LOAD` make a mapping load. -/
theorem isMappingLoad_append (htrail : Blanks trail) (hbetween : Separator.gap.Writes between)
    {rest : List Char} (hrest : startsWord rest = false) :
    isMappingLoad (label.chars ++ ':' :: (trail ++ (Keyword.mapping.letters ++ (between ++
      (Keyword.load.letters ++ rest))))) = true := by
  have hstart : wordMayStart ((label.chars ++ ':' :: trail).getLast?.or none) = true := by
    rw [Option.or_none]
    exact (written_label label htrail).startsWordAfter
  have hhere : (if wordMayStart ((label.chars ++ ':' :: trail).getLast?.or none) then
      (afterMappingLoad? (Keyword.mapping.letters ++ (between ++
        (Keyword.load.letters ++ rest)))).filter fun tail => !startsWord tail
      else none) = some rest := by
    rw [if_pos hstart, afterMappingLoad?_append hbetween]
    simp [hrest]
  rw [isMappingLoad, findFirst?, ← List.cons_append, ← List.append_assoc,
    ledBy_mappingLoad.findFirstAfter?_append (seals_mapping_label label htrail),
    findFirstAfter?_of_eq_some hhere]
  rfl

/-- The label of a mapping load stands at its start. -/
theorem mappingLabel?_append (htrail : Blanks trail) (hbetween : Separator.gap.Writes between)
    (rest : List Char) :
    mappingLabel? (label.chars ++ ':' :: (trail ++ (Keyword.mapping.letters ++ (between ++
      (Keyword.load.letters ++ rest))))) = some label.chars := by
  have hflush : Flush (Keyword.mapping.letters ++ (between ++ (Keyword.load.letters ++ rest))) :=
    Keyword.mapping.solid.flush.append Keyword.mapping.solid.ne_nil _
  rw [mappingLabel?, search?, findFirst?]
  refine congrArg (Option.map Prod.snd) (findFirstAfter?_of_eq_some ?_)
  rw [labelAt?_append, Option.bind_some]
  simp only [htrail.skipBlanks_append hflush, afterMappingLoad?_append hbetween, Option.map_some]

end MappingLoad

/-- Where the source of a mapping load ends. -/
def endsSource (rest : List Char) : Bool :=
  (after? .whereRows rest).isSome || [';'].isPrefixOf rest

/-- Behind a path and white space the source of a mapping load ends, and no condition
starts before that. -/
theorem exists_endsSource {path : Path} {condition : Option Phrase} {tail : List Char}
    (h : Follows (condition.map .condition).toList tail) :
    ∃ pad rest, Blanks pad ∧ tail = pad ++ rest ∧ endsSource rest = true ∧
      ∀ part, part ≠ [] → part <:+ path.chars ++ pad → after? .whereRows (part ++ rest) = none := by
  have hpath : Lacks Keyword.whereRows.letters path.chars := path.lacks (by decide)
  cases condition with
  | none =>
      have hlacks := h.lacks_append Keyword.whereRows.capital hpath (h.lacks (by decide) (by simp))
      obtain ⟨lead, hlead, rfl⟩ := h
      refine ⟨lead, [';'], hlead, rfl, rfl, ?_⟩
      rintro part - ⟨front, hfront⟩
      exact hlacks _ ⟨front, by rw [← List.append_assoc, hfront, List.append_assoc]⟩
  | some test =>
      obtain ⟨between, text, rest, hbetween, htext, -, rfl⟩ := h
      obtain ⟨gap, -, rfl⟩ := exists_of_writes_phrase htext
      refine ⟨between, _, (Separator.writes_gap_iff.mp hbetween).1, rfl, ?_, ?_⟩
      · rw [endsSource, List.append_assoc, after?_self]
        rfl
      · intro part hne hpart
        exact Keyword.whereRows.capital.seals_append hpath hbetween.ne_nil hbetween.wordless part
          hne hpart _

/-- A path before a condition or a semicolon is found with the white space after it. -/
theorem exists_upTo?_endsSource {path : Path} {condition : Option Phrase} {tail : List Char}
    (h : Follows (condition.map .condition).toList tail) (honeLine : '\n' ∉ path.chars ++ tail) :
    ∃ pad, Blanks pad ∧
      upTo? withinLine endsSource (path.chars ++ tail) = some (path.chars ++ pad) := by
  obtain ⟨pad, rest, hpad, rfl, hends, hnone⟩ := exists_endsSource h
  rw [← List.append_assoc] at honeLine ⊢
  refine ⟨pad, hpad, upTo?_append (fun c hc => withinLine_of_ne ?_) ?_ hends⟩
  · rintro rfl
    exact honeLine (List.mem_append_left rest hc)
  · intro part hne hpart
    have hsemicolon : ';' ∉ (part ++ rest).head? := by
      rw [List.head?_append_of_ne_nil part hne]
      intro hmem
      rcases List.mem_append.mp (hpart.subset (List.mem_of_mem_head? hmem)) with hpath | hblank
      · exact path.not_mem_semicolon hpath
      · exact hpad.not_mem (by decide) hblank
    rw [endsSource, hnone part hne hpart, isPrefixOf_singleton_eq_false hsemicolon]
    rfl

/-- The source of a mapping load is found as it was written. -/
theorem mappingSource?_of_located {path : Path} {front : List Piece} {condition : Option Phrase}
    {line : List Char}
    (h : Located (.source (.file path)) front (condition.map .condition).toList line)
    (honeLine : '\n' ∉ line) (hfront : ∀ piece ∈ front, piece.1 ≠ .word .fromSource) :
    ∃ pad, Blanks pad ∧ mappingSource? line = some (path.chars ++ pad) := by
  obtain ⟨start, between, tail, hstart, hbetween, htail, rfl⟩ := h.exists_of_phrase rfl
  obtain ⟨hblanks, hne⟩ := Separator.writes_gap_iff.mp hbetween
  have hafter : '\n' ∉ path.chars ++ tail := by
    intro hmem
    exact honeLine (by simp [List.mem_append.mp hmem])
  obtain ⟨pad, hpad, hupTo⟩ := exists_upTo?_endsSource htail hafter
  have hflush : Flush (path.chars ++ tail) := path.solid.flush.append path.solid.ne_nil tail
  have hspaced : afterSpaced? .fromSource (Keyword.fromSource.letters ++ (between ++
      (path.chars ++ tail))) = some (path.chars ++ tail) := by
    rw [afterSpaced?, after?_self, Option.bind_some, hblanks.afterBlanks?_append hne hflush]
  refine ⟨pad, hpad, ?_⟩
  refine search?_append (fun cs hcs => ?_) (hstart.seals (by decide) hfront) ?_
  · have hnone : after? .fromSource cs = none := hcs
    simp [afterSpaced?, hnone]
  · rw [hspaced]
    exact hupTo

namespace CanonicalMapping

variable {mapping : CanonicalMapping} {line : List Char}

/-- The reserved words in the clauses of a mapping load are those that open them. -/
theorem omits_clauses {reserved : Keyword} (hreserved : reserved ∈ reservedWords)
    (hother : reserved ∉ [Keyword.fromSource, .resident, .whereRows]) :
    ∀ clause ∈ .source (.file mapping.path) :: mapping.later, clause.row.Omits reserved := by
  simp only [List.mem_cons, List.not_mem_nil, or_false, not_or] at hother
  obtain ⟨hfrom, hresident, hwhere⟩ := hother
  intro clause hclause
  rcases List.mem_cons.mp hclause with rfl | hcondition
  · exact Clause.omits_source hreserved hfrom hresident
  · exact Clause.omits_conditions hreserved hwhere clause hcondition

/-- The fields of a mapping load are found as they were written. -/
theorem mappingFields?_of_writes {trail first second text between source : List Char}
    (htrail : Blanks trail) (hfirst : Separator.gap.Writes first)
    (hsecond : Separator.gap.Writes second)
    (htext : (mapping.fields.row fun name => name.toPhrase.row).Writes text)
    (hbetween : Separator.gap.Writes between)
    (hsource : (Clause.source (.file mapping.path)).row.Writes source) (tail : List Char) :
    mappingFields? (mapping.label.chars ++ ':' :: (trail ++ (Keyword.mapping.letters ++ (first ++
      (Keyword.load.letters ++ (second ++ (text ++ (between ++ (source ++ tail))))))))) =
        some text := by
  have homits : (mapping.fields.row fun name => name.toPhrase.row).Omits .fromSource :=
    mapping.fields.omits_row fun name => name.toPhrase.omits_row .fromSource
  have hseals : Seals Keyword.fromSource.letters (text ++ between) :=
    Keyword.fromSource.capital.seals_append (htext.lacks (by decide) homits) hbetween.ne_nil
      hbetween.wordless
  refine search?_mappingLoad mapping.label htrail hfirst ?_
  refine spacedText?_append hsecond htext hbetween (hsource.flush.append hsource.ne_nil tail) ?_ ?_
  · intro part hne hpart
    obtain ⟨front, rfl⟩ := hpart
    have hnone : after? .fromSource ((part ++ between) ++ (source ++ tail)) = none :=
      hseals _ (by simp [hne]) ⟨front, by simp⟩ _
    rw [← List.append_assoc, hnone]
    rfl
  · obtain ⟨gap, -, rfl⟩ := exists_of_writes_phrase hsource
    rw [List.append_assoc, after?_self]
    rfl

/-- A mapping load is read back from each of its written forms. -/
theorem readLine_of_writesClosed (h : mapping.row.WritesClosed line) (honeLine : '\n' ∉ line) :
    readLine line = .ok (some (.mapping mapping.meaning)) := by
  have hlocated : Located (.source (.file mapping.path)) mapping.opening mapping.later line :=
    located_of_writesClosed h
  have hassign : isAssignment line = false :=
    isAssignment_eq_false
      (hlocated.lacks (by decide) (opening_ne (by decide) (by decide))
        (omits_clauses (by decide) (by decide)))
      (hlocated.lacks (by decide) (opening_ne (by decide) (by decide))
        (omits_clauses (by decide) (by decide)))
  have hcondition : readCondition? line = mapping.condition.map Phrase.chars := by
    have hnothing : Located (.source (.file mapping.path)) mapping.opening
        ((mapping.condition.map .condition).toList ++ []) line := by
      rw [List.append_nil]
      exact hlocated
    exact readCondition?_eq hnothing honeLine (opening_ne (by decide) (by decide)) (by simp)
  obtain ⟨pad, hpad, hsource⟩ :=
    mappingSource?_of_located hlocated honeLine (opening_ne (by decide) (by decide))
  obtain ⟨trail, first, second, text, between, source, tail, htrail, hfirst, hsecond, htext,
    hbetween, hclause, -, rfl⟩ := exists_of_located hlocated
  have hnames : readNames text = [mapping.key.text, mapping.value.text] := by
    have htextLine : '\n' ∉ text := fun hmem => honeLine (by simp [hmem])
    simpa [fields, Listing.toList] using readNames_of_writes htext htextLine Blanks.nil
  have hread : readMapping (mapping.label.chars ++ ':' :: (trail ++ (Keyword.mapping.letters ++
      (first ++ (Keyword.load.letters ++ (second ++ (text ++ (between ++ (source ++ tail))))))))) =
        mapping.meaning := by
    rw [readMapping, mappingFields?_of_writes htrail hfirst hsecond htext hbetween hclause,
      mappingLabel?_append mapping.label htrail hfirst, hsource, hcondition]
    simp only [Option.getD_some, mapping.path.solid.trim_append_right hpad]
    rw [← readNames, hnames, Option.map_map]
    rfl
  rw [readLine, hassign, isMappingLoad_append mapping.label htrail hfirst
    (hsecond.startsWord_append _), hread]
  rfl

end CanonicalMapping

/-! ## Assignments -/

namespace CanonicalAssignment

variable {assignment : CanonicalAssignment} {line : List Char}

/-- The parts of a written assignment before its semicolon. -/
theorem exists_of_writesClosed (h : assignment.row.WritesClosed line) :
    ∃ text between lead trail pad, Separator.gap.Writes between ∧ Blanks lead ∧ Blanks trail ∧
      Blanks pad ∧ text = assignment.keyword.letters ++ (between ++ (assignment.name.chars ++
        (lead ++ '=' :: (trail ++ (assignment.value.chars ++ pad))))) ∧
      ';' ∉ text ∧ line = text ++ [';'] := by
  obtain ⟨cs, pad, hwrites, hpad, rfl⟩ := h
  have hsemicolon : ';' ∉ cs ++ pad := by
    simp [hwrites.not_mem_semicolon, hpad.not_mem (show isBlank ';' = false by decide)]
  obtain ⟨_, hfront, rfl⟩ := hwrites
  obtain ⟨between, _, hbetween, hmore, rfl⟩ := Written.cons_iff.mp hfront
  obtain ⟨_, _, hequals, hnil, rfl⟩ := Written.cons_iff.mp hmore
  cases hnil
  obtain ⟨lead, trail, hlead, htrail, rfl⟩ := Separator.writes_equals_iff.mp hequals
  exact ⟨_, between, lead, trail, pad, hbetween, hlead, htrail, hpad, by simp [row, Token.chars],
    hsemicolon, by simp⟩

/-- The word of an assignment says whether it is evaluated. -/
theorem afterAssignKeyword?_append (assignment : CanonicalAssignment) (rest : List Char) :
    afterAssignKeyword? (assignment.keyword.letters ++ rest) =
      some (assignment.evaluated, rest) := by
  rw [keyword]
  cases assignment.evaluated with
  | true => rfl
  | false => rfl

/-- The name and the value of an assignment are read back. -/
theorem readAssignment?_of_writesClosed (h : assignment.row.WritesClosed line) :
    readAssignment? line = some assignment.meaning := by
  obtain ⟨text, between, lead, trail, pad, hbetween, hlead, htrail, hpad, htext, hsemicolon, rfl⟩ :=
    exists_of_writesClosed h
  obtain ⟨hblanks, hne⟩ := Separator.writes_gap_iff.mp hbetween
  have htrim : trimEndOf (· == ';') (text ++ [';']) = text := by
    apply trimEndOf_append_of_pos (by simp)
    intro c hc
    simpa using fun heq : c = ';' => hsemicolon (heq ▸ List.mem_of_mem_getLast? hc)
  have hequals : Flush ('=' :: (trail ++ (assignment.value.chars ++ pad))) := by
    intro c hc
    obtain rfl : '=' = c := by simpa using hc
    decide
  have hword : startsWord (lead ++ '=' :: (trail ++ (assignment.value.chars ++ pad))) = false := by
    cases lead with
    | nil => rfl
    | cons c lead => exact isWord_of_isBlank (hlead c List.mem_cons_self)
  obtain ⟨hrun, hafter⟩ := wordRun_append assignment.name.word hword
  have hname : Flush (assignment.name.chars ++
      (lead ++ '=' :: (trail ++ (assignment.value.chars ++ pad)))) :=
    assignment.name.solid.flush.append assignment.name.solid.ne_nil _
  have hvalue := assignment.value.solid.trim_append htrail hpad
  rw [readAssignment?, htrim, htext, afterAssignKeyword?_append]
  simp [hblanks.afterBlanks?_append hne hname, hrun, hafter, hlead.skipBlanks_append hequals,
    List.isPrefixOf?, hvalue, assignment.name.solid.ne_nil, assignment.value.solid.ne_nil]
  rfl

/-- An assignment is read back from each of its written forms. -/
theorem readLine_of_writesClosed (h : assignment.row.WritesClosed line) :
    readLine line = .ok (some (.assign assignment.meaning)) := by
  have hassign : isAssignment line = true := by
    obtain ⟨_, between, _, _, _, hbetween, -, -, -, rfl, -, rfl⟩ := exists_of_writesClosed h
    rw [List.append_assoc, isAssignment, afterAssignKeyword?_append, List.append_assoc]
    simp [hbetween.startsWord_append]
  rw [readLine, hassign, readAssignment?_of_writesClosed h]
  rfl

end CanonicalAssignment

/-! ## Scripts -/

/-- A canonical statement is read back from each of its written forms. -/
theorem Canonical.readLine_of_writesClosed (statement : Canonical) {line : List Char}
    (h : statement.row.WritesClosed line) (honeLine : '\n' ∉ line) :
    readLine line = .ok (some statement.meaning) := by
  cases statement with
  | assign assignment => exact CanonicalAssignment.readLine_of_writesClosed h
  | mapping mapping => exact CanonicalMapping.readLine_of_writesClosed h honeLine
  | load load => exact CanonicalLoad.readLine_of_writesClosed h honeLine

/-- A row of pieces and clauses omits what each of them omits. -/
theorem omits_prepend_join {front : List Piece} {clause : Clause} {later : List Clause}
    {keyword : Keyword} (hfront : ∀ piece ∈ front, piece.1 ≠ .word keyword)
    (hclauses : ∀ other ∈ clause :: later, other.row.Omits keyword) :
    (Row.prepend front (.join .gap clause.row (later.map Clause.row))).Omits keyword := by
  intro hmem
  rw [Row.tokens_prepend, List.mem_append, Row.mem_tokens_join, ← List.map_cons] at hmem
  rcases hmem with hpiece | ⟨row, hrow, htoken⟩
  · obtain ⟨piece, hpiece, heq⟩ := List.mem_map.mp hpiece
    exact hfront piece hpiece heq
  · obtain ⟨other, hother, rfl⟩ := List.mem_map.mp hrow
    exact hclauses other hother htoken

/-- No canonical statement is a remark. -/
theorem Canonical.omits_remark (statement : Canonical) : statement.row.Omits .remark := by
  cases statement with
  | assign assignment =>
      have hkeyword : Keyword.remark ≠ assignment.keyword := by
        rw [CanonicalAssignment.keyword]
        cases assignment.evaluated <;> decide
      simpa [Row.Omits, Row.tokens, Canonical.row, CanonicalAssignment.row] using hkeyword
  | mapping mapping =>
      exact omits_prepend_join (CanonicalMapping.opening_ne (by decide) (by decide))
        (CanonicalMapping.omits_clauses (by decide) (by decide))
  | load load =>
      exact omits_prepend_join (CanonicalLoad.opening_ne_of_mem (by decide))
        (CanonicalLoad.omits_clauses (by decide) (by decide))

/-- Lines that all give statements are read one after the other. -/
theorem readLines_of_forall₂ {statements : List Statement} {lines : List (List Char)}
    (h : List.Forall₂ (fun statement line => readLine line = .ok (some statement)) statements
      lines) (bindings : Variables) : (readLines lines bindings).1 = .ok statements := by
  induction h generalizing bindings with
  | nil => rfl
  | cons hline _ ih =>
      unfold readLines
      simp only [hline, ih]
      rfl

/-- Reading undoes printing: the statements of a canonical script are read back as they
were meant, from the printed form and from every other layout of the same tokens. -/
theorem readScript_of_writtenScript (statements : List Canonical) :
    WrittenScript (statements.map Canonical.row) (printScript statements) ∧
      ∀ script, WrittenScript (statements.map Canonical.row) script →
        readScript (String.ofList script) = .ok (statements.map Canonical.meaning) := by
  refine ⟨writtenScript_printScript statements, fun script hscript => ?_⟩
  have hremark : ∀ row ∈ statements.map Canonical.row, .word .remark ∉ row.tokens := by
    intro row hrow
    obtain ⟨statement, -, rfl⟩ := List.mem_map.mp hrow
    exact statement.omits_remark
  have hlines := hscript.forall₂_statementLines hremark
  rw [List.forall₂_map_left_iff] at hlines
  have hread : List.Forall₂ (fun statement line => readLine line = .ok (some statement))
      (statements.map Canonical.meaning) (statementLines script) := by
    rw [List.forall₂_map_left_iff]
    exact hlines.imp fun statement line hline =>
      statement.readLine_of_writesClosed hline.1 hline.2
  rw [readScript, Reader.read, String.toList_ofList]
  exact readLines_of_forall₂ hread _

/-- An assignment and a load of sales by region. -/
def salesStatements : List Canonical :=
  [.assign
    { evaluated := true
      name := ⟨⟨['l', 'o', 'w'], by decide +kernel, by decide, by decide⟩, by decide⟩
      value := ⟨['1', '0'], by decide +kernel, by decide, by decide⟩ },
   .load
    { heading := .label ⟨⟨['S', 'u', 'm', 's'], by decide +kernel, by decide, by decide⟩, by decide⟩
      distinct := false
      entries :=
        { first :=
            { expression := ⟨⟨['c'], by decide +kernel, by decide, by decide⟩, by decide, by decide,
                by decide⟩
              name := none }
          others :=
            [{ expression := ⟨⟨['M', 'a', 'x', '(', 'p', ',', '0', ')'], by decide +kernel,
                 by decide, by decide⟩, by decide, by decide, by decide⟩
               name := some ⟨⟨['t', 'o', 'p'], by decide +kernel, by decide, by decide⟩,
                 by decide⟩ }] }
      source := .file ⟨⟨['a', '/', 'b', '.', 'q', 'v', 'd'], by decide +kernel, by decide,
        by decide⟩, by decide⟩
      condition := some ⟨['p', ' ', '>', ' ', '0'], by decide +kernel, by decide, by decide⟩
      grouping := some ⟨⟨⟨['c'], by decide +kernel, by decide, by decide⟩, by decide⟩, []⟩
      sorting := none }]

/-- The same statements in writing, on six lines. -/
def salesScript : String :=
  "LET\n low = 10;\nSums: LOAD c, Max(p,0) as top\n FROM a/b.qvd\n WHERE p > 0\n GROUP BY c;"

theorem readScript_salesScript :
    WrittenScript (salesStatements.map Canonical.row) salesScript.toList ∧
      readScript salesScript = .ok (salesStatements.map Canonical.meaning) := by
  have hbreak : Separator.gap.Writes ['\n', ' '] :=
    Separator.writes_gap_iff.mpr ⟨List.all_eq_true.mp (by decide), by decide⟩
  have hspace := Separator.writes_form .gap
  have hcomma := Separator.writes_form .comma
  have hscript : WrittenScript (salesStatements.map Canonical.row) _ :=
    .cons Blanks.nil
      ⟨_, [], ⟨_, .cons hbreak (.cons (Separator.writes_form .equals) .nil), rfl⟩, Blanks.nil, rfl⟩
      Blanks.nil
      (.last Blanks.nil
        ⟨_, [], ⟨_, .cons (Separator.writes_form .colon) (.cons hspace (.cons hcomma
          (.cons hspace (.cons hspace (.cons hbreak (.cons hspace (.cons hbreak (.cons hspace
            (.cons hbreak (.cons hspace (.cons hspace .nil))))))))))), rfl⟩, Blanks.nil, rfl⟩
        Blanks.nil)
  have hwritten : WrittenScript (salesStatements.map Canonical.row) salesScript.toList := by
    refine Eq.mp (congrArg _ ?_) hscript
    decide +kernel
  refine ⟨hwritten, ?_⟩
  have hread := (readScript_of_writtenScript salesStatements).2 _ hwritten
  rwa [String.ofList_toList] at hread

end QlikMigration.Script
