import QlikMigration.Proofs.Layout
import QlikMigration.Script.Reader

/-!
# Canonical statements

The part of the load language whose statements are read back as they were meant:
assignments, mapping loads from a file, and loads from a file or a table with a
label or a join before them and any of the clauses after them. Names, paths,
conditions and expressions are phrases of the kinds described here, so a
canonical statement carries the proof that nothing in it can be mistaken for a
clause.

A canonical statement is a row of tokens, which may be written in any layout. Its
meaning is the statement that a reader has to find.
-/

namespace QlikMigration.Script

open QlikMigration.Text

/-! ## Kinds of phrases -/

/-- A name: word characters only. -/
structure Identifier extends Phrase where
  word : chars.all isWord = true
  deriving DecidableEq

/-- The path of a file: word characters, dots, slashes, backslashes and colons. -/
structure Path extends Phrase where
  path : chars.all isPathChar = true
  deriving DecidableEq

/-- The name of a field to sort by, in which no direction is mentioned. -/
structure SortName extends Identifier where
  undirected : (mentions ['A', 'S', 'C'] chars || mentions Keyword.desc.letters chars) = false
  deriving DecidableEq

/-- Whether a comma stands outside all parentheses and quotes. -/
def hasTopLevelComma : Nesting → List Char → Bool
  | _, [] => false
  | nesting, c :: rest =>
    (nesting == .neutral && c == ',') || hasTopLevelComma (nesting.step c) rest

/-- What stands before the last word of a text and the white space before that word,
from its end. -/
def beforeLastWord (cs : List Char) : List Char :=
  (cs.reverse.dropWhile isWord).dropWhile isBlank

/-- Whether a text ends in white space, the word `as`, white space and a name. -/
def endsInAlias (cs : List Char) : Bool :=
  let beforeName := cs.reverse.dropWhile isWord
  decide (beforeName.length < cs.length) && beforeName.head?.any isBlank &&
    match beforeLastWord cs with
    | s :: a :: c :: _ => s.toUpper == 'S' && a.toUpper == 'A' && isBlank c
    | _ => false

/-- An expression: parentheses and quotes are closed, no comma stands outside of them,
and it does not end like an expression with a name. -/
structure Expression extends Phrase where
  balanced : Nesting.neutral.run chars = .neutral
  undivided : hasTopLevelComma .neutral chars = false
  unnamed : endsInAlias chars = false
  deriving DecidableEq

/-! ## Statements -/

/-- A list that is not empty. -/
structure Listing (α : Type) where
  first : α
  others : List α
  deriving DecidableEq

def Listing.toList {α : Type} (listing : Listing α) : List α :=
  listing.first :: listing.others

/-- One entry of a field list. -/
structure Entry where
  expression : Expression
  name : Option Identifier
  deriving DecidableEq

/-- What may stand before `LOAD`. -/
inductive Heading
  | none
  | label (name : Identifier)
  | join (kind : JoinKind) (table : Identifier)
  deriving DecidableEq

/-- Where the rows come from. -/
inductive Source
  | file (path : Path)
  | table (name : Identifier)
  deriving DecidableEq

/-- A sort order. -/
structure Sorting where
  names : Listing SortName
  descending : Bool
  deriving DecidableEq

/-- A clause after the field list. -/
inductive Clause
  | source (source : Source)
  | condition (condition : Phrase)
  | grouping (names : Listing Identifier)
  | sorting (sorting : Sorting)
  deriving DecidableEq

/-- A load with its clauses. -/
structure CanonicalLoad where
  heading : Heading
  distinct : Bool
  entries : Listing Entry
  source : Source
  condition : Option Phrase
  grouping : Option (Listing Identifier)
  sorting : Option Sorting
  deriving DecidableEq

/-- A mapping load. -/
structure CanonicalMapping where
  label : Identifier
  key : Identifier
  value : Identifier
  path : Path
  condition : Option Phrase
  deriving DecidableEq

/-- An assignment, by `LET` if it is evaluated and by `SET` if it is not. -/
structure CanonicalAssignment where
  evaluated : Bool
  name : Identifier
  value : Phrase
  deriving DecidableEq

/-- A canonical statement. -/
inductive Canonical
  | assign (assignment : CanonicalAssignment)
  | mapping (mapping : CanonicalMapping)
  | load (load : CanonicalLoad)
  deriving DecidableEq

/-! ## How statements are put together -/

/-- The word between an expression and its name. -/
def asWord : Phrase :=
  ⟨['a', 's'], by decide +kernel, by decide, by decide⟩

def Phrase.row (phrase : Phrase) : Row :=
  ⟨[], .phrase phrase⟩

/-- Rows with commas between them. -/
def Listing.row {α : Type} (row : α → Row) (listing : Listing α) : Row :=
  Row.join .comma (row listing.first) (listing.others.map row)

def Entry.row (entry : Entry) : Row :=
  match entry.name with
  | none => entry.expression.row
  | some name =>
    ⟨[(.phrase entry.expression.toPhrase, .gap), (.phrase asWord, .gap)], .phrase name.toPhrase⟩

/-- The keyword that names a kind of join. -/
def JoinKind.keyword : JoinKind → Keyword
  | inner => .inner
  | left => .left
  | right => .right
  | outer => .outer

def Heading.pieces : Heading → List Piece
  | none => []
  | label name => [(.phrase name.toPhrase, .colon)]
  | join kind table =>
    [(.word kind.keyword, .gap), (.word .join, .opening), (.phrase table.toPhrase, .closing)]

/-- The names of a sort order, and `DESC` after them if it is descending. -/
def Sorting.row (sorting : Sorting) : Row :=
  let names := sorting.names.row fun name => name.toPhrase.row
  if sorting.descending then ⟨names.closedBy .gap, .word .desc⟩ else names

def Clause.row : Clause → Row
  | source (.file path) => ⟨[(.word .fromSource, .gap)], .phrase path.toPhrase⟩
  | source (.table name) => ⟨[(.word .resident, .gap)], .phrase name.toPhrase⟩
  | condition test => ⟨[(.word .whereRows, .gap)], .phrase test⟩
  | grouping names =>
    .prepend [(.word .group, .gap), (.word .byFields, .gap)]
      (names.row fun name => name.toPhrase.row)
  | sorting order => .prepend [(.word .order, .gap), (.word .byFields, .gap)] order.row

/-- What stands before the source of a load. -/
def CanonicalLoad.opening (load : CanonicalLoad) : List Piece :=
  load.heading.pieces ++ (.word .load, .gap) ::
    ((if load.distinct then [(.word .distinct, .gap)] else []) ++
      (load.entries.row Entry.row).closedBy .gap)

/-- The clauses after the source of a load, in their order. -/
def CanonicalLoad.later (load : CanonicalLoad) : List Clause :=
  (load.condition.map .condition).toList ++
    ((load.grouping.map .grouping).toList ++ (load.sorting.map .sorting).toList)

def CanonicalLoad.row (load : CanonicalLoad) : Row :=
  .prepend load.opening
    (.join .gap (Clause.source load.source).row (load.later.map Clause.row))

/-- What stands before the source of a mapping load. -/
def CanonicalMapping.opening (mapping : CanonicalMapping) : List Piece :=
  [(.phrase mapping.label.toPhrase, .colon), (.word .mapping, .gap), (.word .load, .gap),
    (.phrase mapping.key.toPhrase, .comma), (.phrase mapping.value.toPhrase, .gap)]

def CanonicalMapping.later (mapping : CanonicalMapping) : List Clause :=
  (mapping.condition.map .condition).toList

def CanonicalMapping.row (mapping : CanonicalMapping) : Row :=
  .prepend mapping.opening
    (.join .gap (Clause.source (.file mapping.path)).row (mapping.later.map Clause.row))

def CanonicalAssignment.keyword (assignment : CanonicalAssignment) : Keyword :=
  if assignment.evaluated then .letVariable else .setVariable

def CanonicalAssignment.row (assignment : CanonicalAssignment) : Row :=
  ⟨[(.word assignment.keyword, .gap), (.phrase assignment.name.toPhrase, .equals)],
    .phrase assignment.value⟩

/-- The row of tokens of a canonical statement. -/
def Canonical.row : Canonical → Row
  | assign assignment => assignment.row
  | mapping table => table.row
  | load table => table.row

/-! ## What statements mean -/

/-- The text of a phrase. -/
def Phrase.text (phrase : Phrase) : String :=
  String.ofList phrase.chars

/-- An expression is a calculation if it has an operator or a parenthesis in it, or the name of
one of eight functions in any case, with no part of a word before and after the name. -/
def IsCalculation (cs : List Char) : Prop :=
  (∃ c ∈ cs, c ∈ ['+', '-', '*', '/', '(', ')']) ∨
    ∃ front word back, cs = front ++ (word ++ back) ∧
      (∃ name ∈ ["IF", "YEAR", "MONTH", "UPPER", "LOWER", "SUM", "COUNT", "AVG"],
        word.map Char.toUpper = name.toList) ∧
      (∀ c ∈ front.getLast?, isWord c = false) ∧ ∀ c ∈ back.head?, isWord c = false

theorem isCalculated_iff {cs : List Char} (hascii : ∀ c ∈ cs, c.toNat < 128) :
    isCalculated cs = true ↔ IsCalculation cs := by
  have hwords : calculatingWords =
      ["IF", "YEAR", "MONTH", "UPPER", "LOWER", "SUM", "COUNT", "AVG"].map String.toList := by
    decide
  rw [isCalculated, Bool.or_eq_true, List.any_eq_true, List.any_eq_true]
  refine or_congr (by simp) ?_
  constructor
  · rintro ⟨letters, hletters, hword⟩
    obtain ⟨front, _, back, rfl, hstart, htail, hend⟩ := hasWordOf_iff.mp hword
    obtain ⟨word, hspells, rfl⟩ := afterLetters?_eq_some_iff.mp htail
    rw [hwords, List.mem_map] at hletters
    obtain ⟨name, hname, rfl⟩ := hletters
    rw [spells_iff_of_ascii fun c hc => hascii c (by simp [hc])] at hspells
    exact ⟨front, word, back, rfl, ⟨name, hname, hspells⟩, startsWordAfter_iff.mp hstart,
      startsWord_eq_false_iff.mp hend⟩
  · rintro ⟨front, word, back, rfl, ⟨name, hname, hspells⟩, hstart, hend⟩
    rw [← spells_iff_of_ascii fun c hc => hascii c (by simp [hc])] at hspells
    refine ⟨name.toList, hwords ▸ List.mem_map_of_mem hname, hasWordOf_iff.mpr ?_⟩
    exact ⟨front, word ++ back, back, rfl, startsWordAfter_iff.mpr hstart,
      afterLetters?_eq_some_iff.mpr ⟨word, hspells, rfl⟩, startsWord_eq_false_iff.mpr hend⟩

instance (phrase : Phrase) : Decidable (IsCalculation phrase.chars) :=
  decidable_of_iff (isCalculated phrase.chars = true) (isCalculated_iff phrase.ascii)

theorem Phrase.isCalculated_eq (phrase : Phrase) :
    isCalculated phrase.chars = decide (IsCalculation phrase.chars) := by
  rw [Bool.eq_iff_iff, isCalculated_iff phrase.ascii, decide_eq_true_iff]

/-- The field that an entry stands for. -/
def Entry.field (entry : Entry) : Field where
  expression := entry.expression.text
  givenName := entry.name.map fun name => name.text
  calculated := decide (IsCalculation entry.expression.chars)

/-- The fields of a field list. A star alone asks for all fields and calculates nothing. -/
def fieldsOf (entries : Listing Entry) : List Field :=
  if entries.others = [] ∧ entries.first.name = none ∧ entries.first.expression.chars = ['*'] then
    [⟨"*", none, false⟩]
  else entries.toList.map Entry.field

def Heading.label? : Heading → Option String
  | label name => some name.text
  | none | join _ _ => .none

def Heading.join? : Heading → Option Join
  | join kind table => some ⟨kind, table.text, .none⟩
  | none | label _ => .none

def Source.kind : Source → LoadKind
  | file _ => .external
  | table _ => .resident

def Source.text : Source → String
  | file path => path.toPhrase.text
  | table name => name.toPhrase.text

def Sorting.ordering (sorting : Sorting) : Ordering where
  fields := sorting.names.toList.map fun name => name.text
  ascending := !sorting.descending

def CanonicalLoad.meaning (load : CanonicalLoad) : Load where
  kind := load.source.kind
  label := load.heading.label?
  fields := fieldsOf load.entries
  source := some load.source.text
  condition := load.condition.map Phrase.text
  grouping := load.grouping.map fun names => names.toList.map fun name => name.text
  ordering := load.sorting.map Sorting.ordering
  join := load.heading.join?
  distinct := load.distinct
  rows := none

def CanonicalMapping.meaning (mapping : CanonicalMapping) : MappingLoad where
  name := mapping.label.text
  keyField := mapping.key.text
  valueField := mapping.value.text
  source := mapping.path.text
  condition := mapping.condition.map Phrase.text

def CanonicalAssignment.meaning (assignment : CanonicalAssignment) : Assignment where
  name := assignment.name.text
  value := assignment.value.text
  evaluated := assignment.evaluated

/-- The statement that a canonical statement is read as. -/
def Canonical.meaning : Canonical → Statement
  | assign assignment => .assign assignment.meaning
  | mapping table => .mapping table.meaning
  | load table => .load table.meaning

/-! ## Printing -/

/-- The usual written form of a separator. -/
def Separator.form : Separator → List Char
  | gap => [' ']
  | colon => [':', ' ']
  | equals => [' ', '=', ' ']
  | comma => [',', ' ']
  | opening => [' ', '(']
  | closing => [')', ' ']

theorem Separator.writes_form (separator : Separator) : separator.Writes separator.form := by
  have hspace : Blanks [' '] := Blanks.singleton (by decide)
  cases separator with
  | gap => exact writes_gap_iff.mpr ⟨hspace, by decide⟩
  | colon => exact writes_colon_iff.mpr ⟨[' '], hspace, rfl⟩
  | equals => exact writes_equals_iff.mpr ⟨[' '], [' '], hspace, hspace, rfl⟩
  | comma => exact writes_comma_iff.mpr ⟨[], [' '], Blanks.nil, hspace, rfl⟩
  | opening => exact writes_opening_iff.mpr ⟨[' '], hspace, rfl⟩
  | closing => exact writes_closing_iff.mpr ⟨[' '], hspace, by decide, rfl⟩

/-- Prints pieces in the usual form. -/
def printPieces (pieces : List Piece) : List Char :=
  pieces.flatMap fun piece => piece.1.chars ++ piece.2.form

theorem written_printPieces (pieces : List Piece) : Written pieces (printPieces pieces) := by
  induction pieces with
  | nil => exact .nil
  | cons piece pieces ih =>
      rw [printPieces, List.flatMap_cons, List.append_assoc]
      exact .cons piece.2.writes_form ih

/-- Prints a statement. -/
def Canonical.print (statement : Canonical) : List Char :=
  printPieces statement.row.front ++ statement.row.token.chars ++ [';']

theorem Canonical.writesClosed_print (statement : Canonical) :
    statement.row.WritesClosed statement.print :=
  ⟨_, [], ⟨_, written_printPieces _, rfl⟩, Blanks.nil, rfl⟩

/-- Prints statements, one a line. -/
def printScript (statements : List Canonical) : List Char :=
  statements.flatMap fun statement => statement.print ++ ['\n']

/-- The printed form of statements is one of their written forms. -/
theorem writtenScript_printScript (statements : List Canonical) :
    WrittenScript (statements.map Canonical.row) (printScript statements) := by
  induction statements with
  | nil => exact .nil Blanks.nil
  | cons statement statements ih =>
      have hscript := WrittenScript.cons Blanks.nil statement.writesClosed_print Blanks.nil ih
      simpa [printScript] using hscript

end QlikMigration.Script
