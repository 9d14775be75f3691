import QlikMigration.Proofs.FileFormats
import QlikMigration.Proofs.FrameNames
import QlikMigration.Proofs.InlineRows
import QlikMigration.Proofs.Literals
import QlikMigration.Proofs.Outputs
import QlikMigration.Proofs.Provenance

/-!
# Source paths in a program

A load can give the path of its file in brackets. The statement line is searched
for the words of remarks and of mapping loads before the brackets are looked at,
so such words in a path are taken for what they say elsewhere; a path without
them is read as it stands. The program has the path between quotes, again as it
stands, and a program reads what it has between quotes as a literal. So the file
that is read is the one the path names exactly if the path is verbatim.
-/

namespace QlikMigration.Script

open QlikMigration.Text

/-! ## Searches that end at a mark -/

/-- What is found at the start of a text does not reach over a mark behind the text. -/
def EndsAtMark (mark : Char) (next? : List Char → Option (List Char)) : Prop :=
  ∀ cs rest, next? (cs ++ mark :: rest) = (next? cs).map (· ++ mark :: rest)

/-- A text that is found at the start of a word and has to end with a word. -/
def asWord? (next? : List Char → Option (List Char)) (prev : Option Char) (rest : List Char) :
    Option (List Char) :=
  if wordMayStart prev then (next? rest).filter fun tail => !startsWord tail else none

theorem hasWord_eq_isSome (keyword : Keyword) (line : List Char) :
    hasWord keyword line = (findFirst? (asWord? (after? keyword)) line).isSome :=
  rfl

theorem withoutRemark_eq_getD (line : List Char) :
    withoutRemark line =
      ((findFirst? (asWord? (after? .remark)) line).map Prod.fst).getD line := by
  unfold withoutRemark
  split
  · next kept tail hfound =>
      have hword : findFirst? (asWord? (after? .remark)) line = some (kept, tail) := hfound
      rw [hword]
      rfl
  · next hfound =>
      have hword : findFirst? (asWord? (after? .remark)) line = none := hfound
      rw [hword]
      rfl

section Marks

variable {mark : Char} {next? : List Char → Option (List Char)} {cs rest : List Char}

theorem endsAtMark_after? (keyword : Keyword) (hmark : isWord mark = false) :
    EndsAtMark mark (after? keyword) := by
  intro cs rest
  cases hcs : after? keyword cs with
  | none => exact Capital.afterLetters?_append_of_not_isWord keyword.capital.upper hcs hmark rest
  | some tail => exact afterLetters?_append hcs (mark :: rest)

theorem endsAtMark_afterBlanks? (hmark : isBlank mark = false) : EndsAtMark mark afterBlanks? := by
  intro cs rest
  cases cs with
  | nil => simp [afterBlanks?, hmark]
  | cons c cs =>
      by_cases hc : isBlank c = true <;> simp [afterBlanks?, hc, dropWhile_append_cons hmark]

theorem EndsAtMark.bind {second? : List Char → Option (List Char)} (hnext : EndsAtMark mark next?)
    (hsecond : EndsAtMark mark second?) :
    EndsAtMark mark fun cs => (next? cs).bind second? := by
  intro cs rest
  dsimp only
  rw [hnext]
  cases next? cs with
  | none => rfl
  | some tail => exact hsecond tail rest

theorem endsAtMark_afterPair? (first second : Keyword) (hword : isWord mark = false)
    (hblank : isBlank mark = false) : EndsAtMark mark (afterPair? first second) :=
  ((endsAtMark_after? first hword).bind (endsAtMark_afterBlanks? hblank)).bind
    (endsAtMark_after? second hword)

theorem EndsAtMark.asWord?_append (hnext : EndsAtMark mark next?) (hmark : isWord mark = false)
    (prev : Option Char) (cs rest : List Char) :
    asWord? next? prev (cs ++ mark :: rest) =
      (asWord? next? prev cs).map (· ++ mark :: rest) := by
  have hstarts : ∀ tail, startsWord (tail ++ mark :: rest) = startsWord tail := by
    intro tail
    cases tail with
    | nil => exact hmark
    | cons c tail => rfl
  unfold asWord?
  split
  · rw [hnext]
    cases next? cs with
    | none => rfl
    | some tail => simp [Option.filter, hstarts, apply_ite (Option.map _)]
  · rfl

/-- A search goes on behind a mark only if there is no hit before it. -/
theorem EndsAtMark.findFirstAfter?_append (hnext : EndsAtMark mark next?)
    (hmark : isWord mark = false) (prev : Option Char) :
    findFirstAfter? (asWord? next?) prev (cs ++ mark :: rest) =
      ((findFirstAfter? (asWord? next?) prev cs).map fun found =>
          (found.1, found.2 ++ mark :: rest)).or
        ((findFirstAfter? (asWord? next?) (some mark) rest).map fun found =>
          (cs ++ mark :: found.1, found.2)) := by
  induction cs generalizing prev with
  | nil =>
      have hhere := hnext.asWord?_append hmark prev [] rest
      rw [List.nil_append] at hhere
      rw [List.nil_append, findFirstAfter?, findFirstAfter?, hhere]
      cases asWord? next? prev [] with
      | some hit => rfl
      | none => cases findFirstAfter? (asWord? next?) (some mark) rest <;> rfl
  | cons c cs ih =>
      have hhere := hnext.asWord?_append hmark prev (c :: cs) rest
      rw [List.cons_append] at hhere
      rw [List.cons_append, findFirstAfter?, findFirstAfter?, hhere]
      cases asWord? next? prev (c :: cs) with
      | some hit => rfl
      | none =>
          simp only [Option.map_none]
          rw [ih]
          cases findFirstAfter? (asWord? next?) (some c) cs with
          | some found => rfl
          | none => cases findFirstAfter? (asWord? next?) (some mark) rest <;> rfl

end Marks

/-! ## A load from a path in brackets -/

/-- A line that loads everything from what stands in brackets, up to the opening bracket. -/
def fromBracket (rest : List Char) : List Char :=
  ['L', 'O', 'A', 'D', ' ', '*', ' ', 'F', 'R', 'O', 'M', ' '] ++ '[' :: rest

/-- The statement that loads everything from a path. -/
def loadFrom (path : List Char) : List Char :=
  fromBracket (path ++ [']', ';'])

/-- A path that may stand in brackets: nothing in it ends the brackets, the line or the statement,
or begins a comment. -/
structure Enclosed (path : List Char) : Prop where
  unclosed : ']' ∉ path
  oneLine : '\n' ∉ path
  unended : ';' ∉ path
  uncommented : ¬ ['/', '/'] <:+: path

/-- A path that is read as it is. -/
structure Readable (path : List Char) : Prop where
  ne_nil : path ≠ []
  unremarked : hasWord .remark path = false
  unmapped : isMappingLoad path = false

/-- A load from a source, under no label. -/
structure LoadsFrom (source : Option String) (load : Load) : Prop where
  kind : load.kind = .external
  label : load.label = none
  source : load.source = source

section Line

variable {path : List Char} {next? : List Char → Option (List Char)}

/-- Around a path in brackets, a search for words finds what it finds in the path. -/
theorem findFirst?_loadFrom (path : List Char) (hopen : EndsAtMark '[' next?)
    (hclose : EndsAtMark ']' next?)
    (hfront : findFirst? (asWord? next?)
      ['L', 'O', 'A', 'D', ' ', '*', ' ', 'F', 'R', 'O', 'M', ' '] = none)
    (hback : findFirstAfter? (asWord? next?) (some ']') [';'] = none) :
    findFirst? (asWord? next?) (loadFrom path) =
      (findFirst? (asWord? next?) path).map fun found =>
        (fromBracket found.1, found.2 ++ [']', ';']) := by
  have hstart : findFirstAfter? (asWord? next?) (some '[') path =
      findFirst? (asWord? next?) path := by
    cases path <;> rfl
  rw [findFirst?, loadFrom, fromBracket, hopen.findFirstAfter?_append (by decide),
    hclose.findFirstAfter?_append (by decide), hstart, hback]
  rw [findFirst?] at hfront
  rw [hfront]
  cases findFirst? (asWord? next?) path <;> rfl

theorem isMappingLoad_loadFrom : isMappingLoad (loadFrom path) = isMappingLoad path := by
  have hends : ∀ mark, isWord mark = false → isBlank mark = false →
      EndsAtMark mark afterMappingLoad? := fun mark => endsAtMark_afterPair? .mapping .load
  have hfound := findFirst?_loadFrom path (hends '[' (by decide) (by decide))
    (hends ']' (by decide) (by decide)) (by decide) (by decide)
  have hsome := congrArg Option.isSome hfound
  rwa [Option.isSome_map] at hsome

theorem findFirst?_remark_loadFrom :
    findFirst? (asWord? (after? .remark)) (loadFrom path) =
      (findFirst? (asWord? (after? .remark)) path).map fun found =>
        (fromBracket found.1, found.2 ++ [']', ';']) :=
  findFirst?_loadFrom path (endsAtMark_after? .remark (by decide))
    (endsAtMark_after? .remark (by decide)) (by decide) (by decide)

theorem Enclosed.cleanLine_loadFrom (h : Enclosed path) :
    cleanLine (loadFrom path) = trim (withoutRemark (loadFrom path)) := by
  have hpath : Unslashed path := by
    apply unslashed_of_contains_eq_false
    rw [← Bool.not_eq_true, contains_iff]
    exact h.uncommented
  have hline : Unslashed (loadFrom path) := by
    rw [loadFrom, fromBracket, List.append_cons]
    apply Unslashed.append_of_not_mem _ (by decide)
    exact hpath.append (unslashed_of_not_mem (by decide)) (by decide)
  rw [cleanLine, hline.before_eq_self]

/-- Without a remark the whole line is kept. -/
theorem cleanLine_loadFrom_of_unremarked (h : Enclosed path)
    (hremark : hasWord .remark path = false) : cleanLine (loadFrom path) = loadFrom path := by
  have hline : hasWord .remark (loadFrom path) = false := by
    rw [hasWord_eq_isSome, findFirst?_remark_loadFrom, Option.isSome_map]
    exact hremark
  have hsolid : Solid (loadFrom path) := by
    rw [loadFrom, fromBracket, List.append_cons, ← List.append_assoc]
    apply (solid_of_isTrimmed (by decide) (by decide) (by decide)).append_left
    · exact fun c hc => by
        obtain rfl : 'L' = c := by simpa using hc
        decide
    · rw [List.mem_append, not_or]
      exact ⟨by decide, h.oneLine⟩
  rw [h.cleanLine_loadFrom, withoutRemark_eq_self hline, hsolid.trim_eq_self]

/-- A remark in the path takes the closing bracket away. -/
theorem cleanLine_loadFrom_of_remarked (h : Enclosed path)
    (hremark : hasWord .remark path = true) :
    ∃ rest, ']' ∉ rest ∧ cleanLine (loadFrom path) = fromBracket rest := by
  rw [hasWord_eq_isSome] at hremark
  obtain ⟨⟨kept, tail⟩, hfound⟩ := Option.isSome_iff_exists.mp hremark
  have hkept : withoutRemark (loadFrom path) = fromBracket kept := by
    rw [withoutRemark_eq_getD, findFirst?_remark_loadFrom, hfound]
    rfl
  have htrim : trim (fromBracket kept) = fromBracket (trimEndOf isBlank kept) := by
    have hstart : trimStartOf isBlank (fromBracket kept) = fromBracket kept := rfl
    rw [trim, trimOf, hstart, trimEndOf, fromBracket, List.reverse_append, List.reverse_cons,
      List.append_assoc, List.singleton_append, dropWhile_append_cons (by decide)]
    simp [fromBracket, trimEndOf]
  refine ⟨trimEndOf isBlank kept, fun hmem => h.unclosed ?_, ?_⟩
  · have hbefore : kept <+: path := findFirstAfter?_isPrefix hfound
    rw [trimEndOf, List.mem_reverse] at hmem
    exact hbefore.subset (List.mem_reverse.mp ((List.dropWhile_suffix isBlank).subset hmem))
  · rw [h.cleanLine_loadFrom, hkept, htrim]

/-- A line that loads from a bracket is a load, unless it has the words of a mapping load. -/
theorem exists_readLine_fromBracket {rest : List Char}
    (hmapping : isMappingLoad (fromBracket rest) = false) :
    ∃ load, readLine (fromBracket rest) = .ok (some (.load load)) ∧
      LoadsFrom ((bracketedSource? (fromBracket rest)).map String.ofList) load := by
  have hassign : isAssignment (fromBracket rest) = false := rfl
  have hload : isLoad (fromBracket rest) = true := rfl
  have hjoin : readJoin (fromBracket rest) = .ok none := rfl
  have hlabel : loadLabel? (fromBracket rest) = none := rfl
  have hbracketed : hasBracketedSource (fromBracket rest) = true := rfl
  rw [readLine, hassign, hmapping, hload, readLoad, hjoin, readOrigin, hbracketed, hlabel]
  exact ⟨_, rfl, rfl, rfl, rfl⟩

theorem readLine_fromBracket_of_mapping {rest : List Char}
    (hmapping : isMappingLoad (fromBracket rest) = true) :
    readLine (fromBracket rest) = .ok (some (.mapping (readMapping (fromBracket rest)))) := by
  have hassign : isAssignment (fromBracket rest) = false := rfl
  rw [readLine, hassign, hmapping]
  rfl

/-- What is found up to a bracket has a bracket behind it. -/
theorem mem_of_upTo?_atBracketEnd {cs found : List Char}
    (h : upTo? anyChar atBracketEnd cs = some found) : ']' ∈ cs := by
  fun_induction upTo? anyChar atBracketEnd cs generalizing found with
  | case1 hstop => cases hstop
  | case2 => cases h
  | case3 c rest hstop =>
      have hbefore : [']'] <+: c :: rest := List.isPrefixOf_iff_prefix.mp hstop
      exact hbefore.subset List.mem_cons_self
  | case4 c rest _ _ ih =>
      obtain ⟨later, hlater, -⟩ := Option.map_eq_some_iff.mp h
      exact List.mem_cons_of_mem c (ih hlater)
  | case5 => cases h

/-- What stands in brackets behind white space. -/
def inBrackets? (cs : List Char) : Option (List Char) :=
  (afterBlanks? cs).bind fun rest => (['['].isPrefixOf? rest).bind fun body =>
    (upTo? anyChar atBracketEnd body).filter fun path => !path.isEmpty

theorem bracketedSource?_eq_search? (line : List Char) :
    bracketedSource? line =
      search? (fun cs => (after? .fromSource cs).bind inBrackets?) line := by
  unfold bracketedSource?
  congr 1
  funext cs
  rw [afterSpaced?, Option.bind_assoc]
  rfl

theorem bracketedSource?_loadFrom (hne : path ≠ []) (h : Enclosed path) :
    bracketedSource? (loadFrom path) = some path := by
  have hgo : ∀ part, part ≠ [] → part <:+ path → atBracketEnd (part ++ [']', ';']) = false := by
    intro part hpart hsuffix
    rw [← Bool.not_eq_true, atBracketEnd, List.isPrefixOf_iff_prefix]
    intro hbefore
    obtain ⟨c, part, rfl⟩ := List.exists_cons_of_ne_nil hpart
    rw [List.cons_append, List.cons_prefix_cons] at hbefore
    exact h.unclosed (hbefore.1 ▸ hsuffix.subset List.mem_cons_self)
  have htext : upTo? anyChar atBracketEnd (path ++ [']', ';']) = some path :=
    upTo?_append (fun _ _ => rfl) hgo rfl
  have hseals : Seals Keyword.fromSource.letters (Keyword.load.letters ++ [' ', '*', ' ']) :=
    Keyword.fromSource.capital.seals_append (Keyword.lacks_of_ne (by decide) (by decide))
      (by decide) (wordless_of_all (by decide))
  have hline : loadFrom path = (Keyword.load.letters ++ [' ', '*', ' ']) ++
      (Keyword.fromSource.letters ++ (' ' :: '[' :: (path ++ [']', ';']))) := rfl
  have hhit : inBrackets? (' ' :: '[' :: (path ++ [']', ';'])) = some path := by
    show (upTo? anyChar atBracketEnd (path ++ [']', ';'])).filter (fun path => !path.isEmpty) = _
    rw [htext, Option.filter_some, List.isEmpty_eq_false_iff.mpr hne]
    rfl
  rw [bracketedSource?_eq_search?, hline]
  exact search?_after?_append hseals hhit

theorem bracketedSource?_fromBracket {rest : List Char} (hrest : ']' ∉ rest) :
    bracketedSource? (fromBracket rest) = none := by
  cases hsource : bracketedSource? (fromBracket rest) with
  | none => rfl
  | some path =>
      obtain ⟨cs, hcs, hhit⟩ := exists_suffix_of_search? hsource
      obtain ⟨tail, htail, hbody⟩ := Option.bind_eq_some_iff.mp hhit
      obtain ⟨body, hbody, hpath⟩ := Option.bind_eq_some_iff.mp hbody
      have hmem := mem_of_upTo?_atBracketEnd (Option.filter_eq_some_iff.mp hpath).1
      have hsuffix : body <:+ fromBracket rest :=
        (List.suffix_append ['['] body).trans
          ((List.append_eq_of_isPrefixOf?_eq_some hbody).symm ▸
            (suffix_of_afterSpaced? htail).trans hcs)
      rcases List.mem_append.mp (hsuffix.subset hmem) with hfront | hbehind
      · exact absurd hfront (by decide)
      · exact absurd (List.mem_of_ne_of_mem (by decide) hbehind) hrest

/-- A cleaned line is the only statement line. -/
theorem statementLines_loadFrom (h : Enclosed path) {rest : List Char}
    (hclean : cleanLine (loadFrom path) = fromBracket rest) :
    statementLines (loadFrom path) = [fromBracket rest] := by
  have honeLine : '\n' ∉ loadFrom path := by
    rw [loadFrom, fromBracket, List.append_cons, ← List.append_assoc]
    simp [h.oneLine]
  rw [statementLines, List.splitOn_eq_singleton honeLine, List.map_singleton, hclean]
  show gather [] [fromBracket rest] = _
  unfold gather
  dsimp only
  split <;> rfl

theorem readScript_of_statementLines {script line : List Char} {statement : Statement}
    (hlines : statementLines script = [line]) (hread : readLine line = .ok (some statement)) :
    readScript (String.ofList script) = .ok [statement] := by
  rw [readScript, Reader.read, String.toList_ofList, hlines, readLines, hread]
  rfl

/-- A readable path is the source of the one load of its script. -/
theorem Readable.exists_readScript (hreadable : Readable path) (h : Enclosed path) :
    ∃ load, readScript (String.ofList (loadFrom path)) = .ok [.load load] ∧
      LoadsFrom (some (String.ofList path)) load := by
  have hmapping : isMappingLoad (loadFrom path) = false :=
    isMappingLoad_loadFrom.trans hreadable.unmapped
  have hlines := statementLines_loadFrom h (cleanLine_loadFrom_of_unremarked h hreadable.unremarked)
  obtain ⟨load, hread, hload⟩ := exists_readLine_fromBracket hmapping
  have hsource := bracketedSource?_loadFrom hreadable.ne_nil h
  rw [loadFrom] at hsource
  rw [hsource] at hload
  exact ⟨load, readScript_of_statementLines hlines hread, hload⟩

/-- Without a readable path, the one load of a script has no source, or there is a mapping
instead. -/
theorem exists_readScript_of_not_readable (hreadable : ¬ Readable path) (h : Enclosed path) :
    (∃ load, readScript (String.ofList (loadFrom path)) = .ok [.load load] ∧
        LoadsFrom none load) ∨
      ∃ mapping, readScript (String.ofList (loadFrom path)) = .ok [.mapping mapping] := by
  have hline : ∃ rest, cleanLine (loadFrom path) = fromBracket rest ∧
      (isMappingLoad (fromBracket rest) = false → bracketedSource? (fromBracket rest) = none) := by
    cases hremark : hasWord .remark path with
    | true =>
        obtain ⟨rest, hrest, hclean⟩ := cleanLine_loadFrom_of_remarked h hremark
        exact ⟨rest, hclean, fun _ => bracketedSource?_fromBracket hrest⟩
    | false =>
        refine ⟨_, cleanLine_loadFrom_of_unremarked h hremark, fun hmapping => ?_⟩
        obtain rfl : path = [] := by
          by_contra hne
          exact hreadable ⟨hne, hremark, isMappingLoad_loadFrom.symm.trans hmapping⟩
        rfl
  obtain ⟨rest, hclean, hsource⟩ := hline
  have hlines := statementLines_loadFrom h hclean
  cases hmapping : isMappingLoad (fromBracket rest) with
  | true =>
      exact Or.inr ⟨_, readScript_of_statementLines hlines
        (readLine_fromBracket_of_mapping hmapping)⟩
  | false =>
      obtain ⟨load, hread, hload⟩ := exists_readLine_fromBracket hmapping
      rw [hsource hmapping] at hload
      exact Or.inl ⟨load, readScript_of_statementLines hlines hread, hload⟩

end Line

end QlikMigration.Script

namespace QlikMigration

open QlikMigration.Script QlikMigration.Text

/-! ## The program -/

/-- The model of one load without a label has one table. -/
structure DataModel.HasOneTable (model : DataModel) (source : Option String) (table : Table) :
    Prop where
  tables : model.tables = .ofList [("Table1", table)]
  order : model.executionOrder = ["Table1"]
  mappings : model.mappings = ∅
  bindings : model.bindings = ∅
  name : table.name = "Table1"
  sourceType : table.sourceType = "external"
  sourcePath : table.sourcePath = source

theorem executionOrder_singleton {name : String} (hname : name ≠ "") (table : Table) :
    executionOrder (.ofList [(name, table)]) = [name] := by
  have horder : Topological (.ofList [(name, table)])
      (executionOrder (.ofList [(name, table)])) :=
    topological_executionOrder (by simpa [Catalog.names_ofList] using hname.symm)
  have hperm : (executionOrder (.ofList [(name, table)])).Perm [name] := by
    rw [List.perm_ext_iff_of_nodup horder.nodup (List.nodup_singleton name)]
    exact horder.mem_iff
  exact List.perm_singleton.mp hperm

theorem Script.LoadsFrom.exists_model {source : Option String} {load : Load}
    (hload : LoadsFrom source load) {script : String}
    (hread : readScript script = .ok [.load load]) :
    ∃ model table, DataModel.ofScript script = .ok model ∧ model.HasOneTable source table := by
  have hname : Builder.nameFor {} load = ("Table1", { generated := 1 }) := by
    rw [Builder.nameFor, hload.label]
    rfl
  have htable : ∃ table, Builder.tableOf { generated := 1 } "Table1" load = .ok table ∧
      table.name = "Table1" ∧ table.sourceType = "external" ∧ table.sourcePath = source := by
    rw [Builder.tableOf, Builder.originTable, hload.kind, hload.source]
    exact ⟨_, rfl, rfl, rfl, rfl⟩
  obtain ⟨table, htable, hrest⟩ := htable
  have hadd : Builder.addLoad {} load =
      .ok { model.tables := .ofList [("Table1", table)], generated := 1 } := by
    rw [Builder.addLoad, hname]
    dsimp only
    rw [htable]
    rfl
  have hbuilt := DataModel.ofStatements_of_foldlM
    (Builder.foldlM_add_cons_eq_ok.mpr ⟨_, hadd, rfl⟩ :
      [Statement.load load].foldlM Builder.add {} = _)
  refine ⟨_, table, DataModel.ofScript_of_readScript hread hbuilt, ?_⟩
  exact ⟨rfl, executionOrder_singleton (by decide) _, rfl, rfl, hrest.1, hrest.2.1, hrest.2.2⟩

/-! ## The line that reads the table -/

namespace Spark

/-- The line of a program that reads its first table. -/
def ReadsTable (model : DataModel) (line : String) : Prop :=
  ∃ rest, ∀ session,
    programLines session model = .ok (header session ++ ("# Table: Table1" :: line :: rest))

theorem ReadsTable.unique {model : DataModel} {line other : String} (h : ReadsTable model line)
    (hother : ReadsTable model other) : line = other := by
  obtain ⟨rest, hlines⟩ := h
  obtain ⟨rest', hlines'⟩ := hother
  have heq := Except.ok.inj ((hlines .provided).symm.trans (hlines' .provided))
  have htail := (List.cons.inj (List.append_cancel_left heq)).2
  exact (List.cons.inj htail).1

theorem readsTable_of_hasOneTable {model : DataModel} {source : Option String} {table : Table}
    (h : model.HasOneTable source table) :
    ReadsTable model (externalLine table "df_table1") := by
  have hframe : frameName table.name = "df_table1" := by
    rw [h.name]
    decide
  have hblock : tableBlock table = .ok ("# Table: Table1" :: externalLine table "df_table1" ::
      table.steps.flatMap fun step => stepLines "df_table1" step.action) := by
    rw [tableBlock, hframe, sourceLines, h.sourceType, h.name]
    rfl
  have hblocks : tableBlocks model = .ok [("# Table: Table1" :: externalLine table "df_table1" ::
      table.steps.flatMap fun step => stepLines "df_table1" step.action) ++ [""]] := by
    rw [tableBlocks, h.order, h.tables]
    show [table].mapM _ = _
    rw [List.mapM_cons, hblock]
    rfl
  refine ⟨(table.steps.flatMap fun step => stepLines "df_table1" step.action) ++
    ([""] ++ footer ["Table1"]), fun session => ?_⟩
  rw [programLines, hblocks, h.bindings, h.mappings, h.order]
  simp [variablesBlock, Except.map]

theorem not_readsTable_of_mapping {script : String} {mapping : MappingLoad} {model : DataModel}
    (hread : readScript script = .ok [.mapping mapping])
    (hmodel : DataModel.ofScript script = .ok model) (line : String) : ¬ ReadsTable model line := by
  rintro ⟨rest, hlines⟩
  have hbuilt : DataModel.ofStatements [.mapping mapping] = .ok _ :=
    DataModel.ofStatements_of_foldlM rfl
  obtain rfl := Except.ok.inj
    ((DataModel.ofScript_of_readScript hread hbuilt).symm.trans hmodel)
  -- Behind the header stands the block of the mapping.
  have hfirst : some ("# Mapping: " ++ mapping.name) = some "# Table: Table1" :=
    congrArg (·[(header .provided).length]?) (Except.ok.inj (hlines .provided))
  have hletters := congrArg String.toList (Option.some.inj hfirst)
  rw [String.toList_append] at hletters
  have hletter : 'M' = 'T' := Option.some.inj (congrArg (·[2]?) hletters)
  exact absurd hletter (by decide)

/-- The code points of the path in a line that reads a file. -/
def pathCodes? (named? : List Char → Option Nat) (line : String) : Option (List Nat) :=
  ([' ', '=', ' '].isPrefixOf? (afterWordRun line.toList)).bind fun reading =>
    ([FileReader.csv, .parquet, .json, .excel].findSome? fun reader =>
      reader.call.toList.isPrefixOf? reading).bind (denoted? named?)

theorem pathCodes?_expression (named? : List Char → Option Nat) (reader : FileReader)
    (path : String) :
    pathCodes? named? ("df_table1" ++ " = " ++ reader.expression path) =
      denoted? named? ('\'' :: (path.toList ++ '\'' :: reader.callEnd.toList)) := by
  have hquoted : (quoted path).toList = '\'' :: (path.toList ++ ['\'']) := by
    rw [quoted, String.toList_append, String.toList_append]
    rfl
  rw [pathCodes?, FileReader.expression_eq]
  simp only [String.toList_append, hquoted]
  cases reader <;> simp <;> rfl

/-- The path of a line that reads a file is read back exactly if it is verbatim. -/
theorem pathCodes?_expression_iff {named? : List Char → Option Nat} {reader : FileReader}
    {path : List Char} :
    pathCodes? named? ("df_table1" ++ " = " ++ reader.expression (String.ofList path)) =
        some (path.map Char.toNat) ↔ Verbatim path := by
  rw [pathCodes?_expression, String.toList_ofList]
  apply denoted?_eq_iff
  cases reader <;> decide

theorem externalLine_of_none {table : Table} (hpath : table.sourcePath = none) (frame : String) :
    externalLine table frame = frame ++ " = " ++ FileReader.csv.expression "data.csv" := by
  rw [externalLine, hpath]
  rfl

theorem pathCodes?_fixedPath (named? : List Char → Option Nat) :
    pathCodes? named? ("df_table1" ++ " = " ++ FileReader.csv.expression "data.csv") =
      some ("data.csv".toList.map Char.toNat) := by
  rw [pathCodes?_expression]
  apply (denoted?_eq_iff (by decide)).mpr
  exact verbatim_of_not_mem_backslash (by decide) (by decide) (by simp [endsLine])

/-- What becomes of a path in brackets. -/
structure PathRun (path : List Char) (model : DataModel) : Prop where
  built : DataModel.ofScript (String.ofList (loadFrom path)) = .ok model
  /-- A readable path is put between quotes as it is. -/
  pasted : Readable path → ReadsTable model ("df_table1" ++ " = " ++
    (tableReader (String.ofList path)).expression (String.ofList path))
  /-- Instead of any other path a file of a fixed name is read, or nothing at all. -/
  lost : ¬ Readable path → model.tables = ∅ ∨
    ReadsTable model ("df_table1" ++ " = " ++ FileReader.csv.expression "data.csv")
  /-- The program reads the file of the path exactly if the path is readable and verbatim. -/
  survives : ∀ named?,
    (∃ line, ReadsTable model line ∧ pathCodes? named? line = some (path.map Char.toNat)) ↔
      Readable path ∧ Verbatim path

/-- A load from a path in brackets can always be converted. The literal in the line that reads
the table denotes the path exactly if the path is not empty, has no word `REM` and no words
`MAPPING LOAD`, and is verbatim. -/
theorem exists_pathRun_of_enclosed {path : List Char} (h : Enclosed path) :
    ∃ model, PathRun path model := by
  by_cases hreadable : Readable path
  · obtain ⟨load, hread, hload⟩ := hreadable.exists_readScript h
    obtain ⟨model, table, hmodel, htable⟩ := hload.exists_model hread
    have hreads := readsTable_of_hasOneTable htable
    have hne : String.ofList path ≠ "" := by
      intro heq
      exact hreadable.ne_nil (by simpa using congrArg String.toList heq)
    rw [externalLine_eq htable.sourcePath hne] at hreads
    refine ⟨model, hmodel, fun _ => hreads, fun hnot => absurd hreadable hnot, fun named? => ?_⟩
    constructor
    · rintro ⟨line, hline, hcodes⟩
      rw [hline.unique hreads, pathCodes?_expression_iff] at hcodes
      exact ⟨hreadable, hcodes⟩
    · rintro ⟨-, hverbatim⟩
      exact ⟨_, hreads, pathCodes?_expression_iff.mpr hverbatim⟩
  · rcases exists_readScript_of_not_readable hreadable h with
      ⟨load, hread, hload⟩ | ⟨mapping, hread⟩
    · obtain ⟨model, table, hmodel, htable⟩ := hload.exists_model hread
      have hreads := readsTable_of_hasOneTable htable
      rw [externalLine_of_none htable.sourcePath] at hreads
      refine ⟨model, hmodel, fun hyes => absurd hyes hreadable, fun _ => Or.inr hreads,
        fun named? => ?_⟩
      refine iff_of_false ?_ fun hyes => hreadable hyes.1
      rintro ⟨line, hline, hcodes⟩
      rw [hline.unique hreads, pathCodes?_fixedPath] at hcodes
      -- The fixed name is readable, so it is not the path.
      have hpath : "data.csv".toList = path :=
        List.map_injective_iff.mpr (Function.LeftInverse.injective Char.ofNat_toNat)
          (Option.some.inj hcodes)
      exact hreadable (hpath ▸ ⟨by decide, by decide, by decide⟩)
    · have hbuilt : DataModel.ofStatements [.mapping mapping] = .ok _ :=
        DataModel.ofStatements_of_foldlM rfl
      have hmodel := DataModel.ofScript_of_readScript hread hbuilt
      refine ⟨_, hmodel, fun hyes => absurd hyes hreadable, fun _ => Or.inl rfl, fun named? => ?_⟩
      refine iff_of_false ?_ fun hyes => hreadable hyes.1
      rintro ⟨line, hline, -⟩
      exact not_readsTable_of_mapping hread hmodel line hline

/-- A path with backslashes. -/
def backslashPath : List Char :=
  "C:\\new\\table.csv".toList

/-- The line that reads the table has the path in it, and denotes another one: a backslash and
the letter behind it are a line end and a tabulator. -/
theorem exists_pathRun_of_backslashPath :
    ∃ model, PathRun backslashPath model ∧
      ReadsTable model
        "df_table1 = spark.read.csv('C:\\new\\table.csv', header=True, inferSchema=True)" ∧
      ∀ named? line, ReadsTable model line →
        pathCodes? named? line ≠ some (backslashPath.map Char.toNat) := by
  have henclosed : Enclosed backslashPath :=
    ⟨by decide, by decide, by decide, by rw [← contains_iff]; decide⟩
  obtain ⟨model, hrun⟩ := exists_pathRun_of_enclosed henclosed
  refine ⟨model, hrun, hrun.pasted ⟨by decide, by decide, by decide⟩, ?_⟩
  intro named? line hline hcodes
  have hverbatim := ((hrun.survives named?).mp ⟨line, hline, hcodes⟩).2
  have hescape := hverbatim.unescaped 'n' (contains_iff.mp (by decide))
  exact absurd hescape (by decide)

end Spark

end QlikMigration
