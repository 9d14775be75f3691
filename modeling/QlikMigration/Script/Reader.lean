import QlikMigration.Catalog
import QlikMigration.Script.Clause
import QlikMigration.Script.Lines

/-!
# Reading a script

A statement line is a variable assignment if it begins with `LET` or `SET`, a
mapping load if it has the words `MAPPING LOAD`, and a load if it has the word
`LOAD` or `JOIN`; any other line is no statement. Reading a whole script goes
through the lines in order, but a line that gives no statement takes the line
after it along: that line is not looked at.

A reader keeps the lines that it has not read yet and the variables assigned so
far. Both survive a failure, so that reading can go on behind the line that
failed; the variables also survive the reading of another script.
-/

namespace QlikMigration.Script

open QlikMigration.Text

/-- Why a statement line cannot be read. -/
inductive ReadError
  /-- A join names no table in parentheses. -/
  | joinWithoutTable
  /-- The words that announce a join are spelled with a letter that has no plain
  capital form, so they name no kind of join. -/
  | unknownJoin (words : String)
  deriving DecidableEq, Repr

/-! ### Variable assignments -/

/-- What follows `LET` or `SET` at the start of a line, and whether it was `LET`. -/
def afterAssignKeyword? (line : List Char) : Option (Bool × List Char) :=
  match after? .letVariable line with
  | some rest => some (true, rest)
  | none => (after? .setVariable line).map fun rest => (false, rest)

/-- Whether a line begins with the word `LET` or `SET`. -/
def isAssignment (line : List Char) : Bool :=
  (afterAssignKeyword? line).any fun found => !startsWord found.2

/-- Reads the name, the equals sign and the value of an assignment. -/
def readAssignment? (line : List Char) : Option Assignment := do
  let (evaluated, rest) ← afterAssignKeyword? (trimEndOf (· == ';') line)
  let rest ← afterBlanks? rest
  let name := wordRun rest
  let value ← ['='].isPrefixOf? (skipBlanks (afterWordRun rest))
  if name.isEmpty || value.isEmpty then none
  else some ⟨String.ofList name, String.ofList (trim value), evaluated⟩

/-! ### Mapping loads -/

/-- What follows `MAPPING LOAD` at the start of a text. -/
def afterMappingLoad? (cs : List Char) : Option (List Char) :=
  afterPair? .mapping .load cs

/-- Whether a line has the words `MAPPING LOAD`. -/
def isMappingLoad (line : List Char) : Bool :=
  (findFirst? (fun prev rest =>
    if wordMayStart prev then
      (afterMappingLoad? rest).filter fun tail => !startsWord tail
    else
      none) line).isSome

/-- The name and what follows the colon, where a text begins with a name and a colon. -/
def labelAt? (cs : List Char) : Option (List Char × List Char) :=
  let name := wordRun cs
  if name.isEmpty then none
  else ([':'].isPrefixOf? (afterWordRun cs)).map fun rest => (name, rest)

/-- The label of a mapping load. -/
def mappingLabel? (line : List Char) : Option (List Char) :=
  search? (fun cs =>
    (labelAt? cs).bind fun (name, rest) =>
      (afterMappingLoad? (skipBlanks rest)).map fun _ => name) line

/-- The field list of a mapping load. -/
def mappingFields? (line : List Char) : Option (List Char) :=
  search? (fun cs =>
    (afterMappingLoad? cs).bind
      (spacedText? fun rest => (after? .fromSource rest).isSome)) line

/-- The source of a mapping load: from the first `FROM` to `WHERE` or a semicolon. -/
def mappingSource? (line : List Char) : Option (List Char) :=
  search? (fun cs =>
    (afterSpaced? .fromSource cs).bind (upTo? withinLine fun rest =>
      (after? .whereRows rest).isSome || [';'].isPrefixOf rest)) line

/-- Reads a mapping load. A missing label, key or source has a stand-in. -/
def readMapping (line : List Char) : MappingLoad :=
  let fields := (List.splitOn ',' ((mappingFields? line).getD [])).map fun field =>
    String.ofList (trim field)
  { name := (mappingLabel? line).elim "UnnamedMapping" String.ofList
    keyField := fields.head?.getD "key"
    valueField := fields[1]?.getD "value"
    source := String.ofList (trim ((mappingSource? line).getD []))
    condition := (readCondition? line).map String.ofList }

/-! ### Joins and labels -/

/-- Capital letters of the words that announce a join. The dotless i has a capital,
the dotted capital I stays what it is. -/
def joinCapitals (cs : List Char) : List Char :=
  cs.map fun c => if c.toNat == 0x131 then 'I' else c.toUpper

/-- The kind of join that words in capital letters name. -/
def joinKind (capitals : List Char) : Except ReadError JoinKind :=
  if contains Keyword.left.letters capitals then .ok .left
  else if contains Keyword.right.letters capitals then .ok .right
  else if contains Keyword.outer.letters capitals then .ok .outer
  else if contains Keyword.inner.letters capitals || capitals == Keyword.join.letters then
    .ok .inner
  else .error (.unknownJoin (String.ofList capitals))

/-- What follows the words of a join at the start of a text: `JOIN` alone, or after
the word for its kind. -/
def afterJoinWords? (cs : List Char) : Option (List Char) :=
  (((afterPair? .left .join cs).or (afterPair? .right .join cs)).or
    ((afterPair? .inner .join cs).or (afterPair? .outer .join cs))).or (after? .join cs)

/-- Whether white space and `LOAD` stand here. -/
def loadFollows (cs : List Char) : Bool :=
  ((afterBlanks? cs).bind (after? .load)).isSome

/-- The table in parentheses, if any, between the words of a join and `LOAD`. -/
def joinTable? (cs : List Char) : Option (Option (List Char)) :=
  match ['('].isPrefixOf? (skipBlanks cs) with
  | none => if loadFollows cs then some none else none
  | some inner =>
    match [')'].isPrefixOf? (afterWordRun inner) with
    | none => none
    | some rest =>
      if !(wordRun inner).isEmpty && loadFollows rest then some (some (wordRun inner)) else none

/-- The join announced at the start of a line, if one is. -/
def readJoin (line : List Char) : Except ReadError (Option Join) :=
  match afterJoinWords? line with
  | none => .ok none
  | some rest =>
    match joinTable? rest with
    | none => .ok none
    | some table => do
      let kind ← joinKind (joinCapitals (line.take (line.length - rest.length)))
      match table with
      | none => .error .joinWithoutTable
      | some name => .ok (some ⟨kind, String.ofList name, none⟩)

/-- What follows the word for a kind of join, which may be absent. -/
def skipJoinKind (cs : List Char) : List Char :=
  (((after? .left cs).or (after? .right cs)).or ((after? .inner cs).or (after? .outer cs))).getD cs

/-- The label at the start of a load. Between the label and `LOAD` only the words of
a join may stand. -/
def loadLabel? (line : List Char) : Option (List Char) :=
  (labelAt? line).bind fun (name, rest) =>
    let body := skipBlanks rest
    let joined := (after? .join (skipBlanks (skipJoinKind body))).any fun tail =>
      (after? .load (skipBlanks tail)).isSome
    if (after? .load body).isSome || joined then some name else none

/-! ### Loads -/

/-- Whether `FROM`, white space and an opening bracket occur. -/
def hasBracketedSource (line : List Char) : Bool :=
  (searchWord? .fromSource (fun rest =>
    (afterBlanks? rest).bind (['['].isPrefixOf?)) line).isSome

/-- The text between the brackets after `FROM`. -/
def bracketedSource? (line : List Char) : Option (List Char) :=
  search? (fun cs =>
    (afterSpaced? .fromSource cs).bind fun rest =>
      (['['].isPrefixOf? rest).bind fun body =>
        (upTo? anyChar atBracketEnd body).filter fun path => !path.isEmpty) line

/-- Whether a character may stand in a path without brackets. -/
def isPathChar (c : Char) : Bool :=
  isWord c || c == '.' || c == '/' || c == '\\' || c == ':'

/-- The characters of a class after the first such keyword that they follow. -/
def runAfter? (keyword : Keyword) (p : Char → Bool) (line : List Char) : Option (List Char) :=
  search? (fun cs =>
    (afterSpaced? keyword cs).bind fun rest =>
      let run := rest.takeWhile p
      if run.isEmpty then none else some run) line

/-- Where the rows of a load come from. -/
structure Origin where
  kind : LoadKind
  source : Option String
  rows : Option (List (List String))
  deriving DecidableEq, Repr

/-- The origin of a load: a file if there is a `FROM`, else a table if there is a
`RESIDENT`, else inline rows; a load without any of them counts as external. -/
def readOrigin (line : List Char) : Origin :=
  if hasBracketedSource line then
    ⟨.external, (bracketedSource? line).map String.ofList, none⟩
  else if hasWord .fromSource line then
    ⟨.external, (runAfter? .fromSource isPathChar line).map String.ofList, none⟩
  else if hasWord .resident line then
    ⟨.resident, (runAfter? .resident isWord line).map String.ofList, none⟩
  else if hasWord .inlineRows line then
    ⟨.inlined, none, some (readRows line)⟩
  else
    ⟨.external, none, none⟩

/-- Whether a line has the word `LOAD` or the word `JOIN`. -/
def isLoad (line : List Char) : Bool :=
  hasWord .load line || hasWord .join line

/-- Reads a load. -/
def readLoad (line : List Char) : Except ReadError Load :=
  (readJoin line).map fun join =>
    let origin := readOrigin line
    { kind := origin.kind
      label := (loadLabel? line).map String.ofList
      fields := readFields line
      source := origin.source
      condition := (readCondition? line).map String.ofList
      grouping := readGrouping? line
      ordering := readOrdering? line
      join := join
      distinct := hasWord .distinct line
      rows := origin.rows }

/-! ### Scripts -/

/-- Reads one statement line. A line that no rule recognises, and an assignment
without a name or a value, give no statement. -/
def readLine (line : List Char) : Except ReadError (Option Statement) :=
  if isAssignment line then .ok ((readAssignment? line).map .assign)
  else if isMappingLoad line then .ok (some (.mapping (readMapping line)))
  else if isLoad line then (readLoad line).map fun load => some (.load load)
  else .ok none

/-- The variables of a script, in the order of their first assignment. -/
abbrev Variables := Catalog String

/-- The variables after a statement. -/
def Variables.after (bindings : Variables) : Statement → Variables
  | .assign assignment => bindings.put assignment.name assignment.value
  | _ => bindings

/-- The lines not yet read and the variables assigned so far. -/
structure Reader where
  pending : List (List Char)
  bindings : Variables
  deriving DecidableEq, Repr

/-- A reader that has read nothing. -/
def Reader.start : Reader := ⟨[], ∅⟩

/-- Reads the next line, which is then no longer pending even if it cannot be read. -/
def Reader.next (reader : Reader) : Except ReadError (Option Statement) × Reader :=
  match reader.pending with
  | [] => (.ok none, reader)
  | line :: rest =>
    match readLine line with
    | .ok (some statement) =>
      (.ok (some statement), ⟨rest, reader.bindings.after statement⟩)
    | .ok none => (.ok none, ⟨rest, reader.bindings⟩)
    | .error error => (.error error, ⟨rest, reader.bindings⟩)

/-- Reads lines to the end or to the first that cannot be read. After a line without
a statement the next line is passed over. -/
def readLines : List (List Char) → Variables → Except ReadError (List Statement) × Reader
  | [], bindings => (.ok [], ⟨[], bindings⟩)
  | line :: rest, bindings =>
    match readLine line with
    | .error error => (.error error, ⟨rest, bindings⟩)
    | .ok (some statement) =>
      let (read, reader) := readLines rest (bindings.after statement)
      (read.map (statement :: ·), reader)
    | .ok none =>
      match rest with
      | [] => (.ok [], ⟨[], bindings⟩)
      | _ :: later => readLines later bindings

/-- Reads a whole script with the variables known so far. -/
def Reader.read (reader : Reader) (script : String) :
    Except ReadError (List Statement) × Reader :=
  readLines (statementLines script.toList) reader.bindings

/-- The statements of a script. -/
def readScript (script : String) : Except ReadError (List Statement) :=
  (Reader.start.read script).1

end QlikMigration.Script
