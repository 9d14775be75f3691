import QlikMigration.Script.Keyword
import QlikMigration.Script.Statement
import QlikMigration.Script.TopLevel
import QlikMigration.Text.Cut

/-!
# Clauses

Each clause of a load is looked for on its own in the whole statement line, by
the keyword that opens it; it reaches to the nearest keyword that may close it.
The searches do not know about each other, so the letters of a keyword inside a
name can end a clause. Conditions may run over line ends, groupings and
orderings may not.
-/

namespace QlikMigration.Script

open QlikMigration.Text

/-! ### Field list -/

/-- Whether a text begins with what may follow a field list: the keyword of a later
clause, in whose letters a longer word may begin, or a semicolon. -/
def startsClause (cs : List Char) : Bool :=
  (after? .fromSource cs).isSome || (after? .resident cs).isSome ||
    (after? .inlineRows cs).isSome || (after? .whereRows cs).isSome ||
    (afterPair? .group .byFields cs).isSome || (afterPair? .order .byFields cs).isSome ||
    [';'].isPrefixOf cs

/-- The text between the white space after a keyword and the white space before the
closing keyword. If only white space separates the two keywords, and at least two
of it, the text between them is empty. -/
def spacedText? (closes : List Char → Bool) (afterKeyword : List Char) : Option (List Char) :=
  let gap := afterKeyword.takeWhile isBlank
  let body := afterKeyword.dropWhile isBlank
  if gap.isEmpty then none
  else
    match upTo? anyChar (fun rest => (afterBlanks? rest).any closes) body with
    | some text => some text
    | none => if 2 ≤ gap.length && closes body then some [] else none

/-- The field list of a statement: after the first `LOAD` for which there is one,
where the word `DISTINCT` is passed over if a field list remains. -/
def fieldList? (statement : List Char) : Option (List Char) :=
  search? (fun rest =>
    (after? .load rest).bind fun afterLoad =>
      match (afterBlanks? afterLoad).bind (after? .distinct) with
      | some afterDistinct =>
        (spacedText? startsClause afterDistinct).or (spacedText? startsClause afterLoad)
      | none => spacedText? startsClause afterLoad) statement

/-- The function names that make an expression a calculated one. -/
def calculatingWords : List (List Char) :=
  [['I', 'F'], ['Y', 'E', 'A', 'R'], ['M', 'O', 'N', 'T', 'H'], ['U', 'P', 'P', 'E', 'R'],
   ['L', 'O', 'W', 'E', 'R'], ['S', 'U', 'M'], ['C', 'O', 'U', 'N', 'T'], ['A', 'V', 'G']]

/-- Whether an expression has an operator, a parenthesis or a calculating word. -/
def isCalculated (expression : List Char) : Bool :=
  expression.any (fun c => ['+', '-', '*', '/', '(', ')'].contains c) ||
    calculatingWords.any fun word => hasWordOf word expression

/-- The name in `as name`, if a text is white space, `as`, white space and a name,
up to its end. -/
def aliasAt? (cs : List Char) : Option (List Char) :=
  (afterBlanks? cs).bind fun keyword =>
    (afterSpaced? .asName keyword).bind fun name =>
      if !(wordRun name).isEmpty && atEnd (afterWordRun name) then some (wordRun name) else none

/-- Reads one trimmed entry of a field list. -/
def readField (entry : List Char) : Field :=
  let (expression, givenName) := match findFirst? (fun _ rest => aliasAt? rest) entry with
    | some (expression, name) => (trim expression, some (String.ofList name))
    | none => (entry, none)
  { expression := String.ofList expression
    givenName
    calculated := isCalculated expression }

/-- The fields of a statement. A lone star is one field, and it is not calculated. -/
def readFields (statement : List Char) : List Field :=
  match fieldList? statement with
  | none => []
  | some text =>
    if trim text = ['*'] then [⟨"*", none, false⟩]
    else (((splitTopLevel (· == ',') (trim text)).map trim).filter (!·.isEmpty)).map readField

/-! ### Condition, grouping, ordering -/

/-- Whether `GROUP BY` or `ORDER BY` after white space, a semicolon or the end stands
here. -/
def endsCondition (cs : List Char) : Bool :=
  (afterBlanks? cs).any (fun rest =>
    (afterPair? .group .byFields rest).isSome || (afterPair? .order .byFields rest).isSome) ||
    [';'].isPrefixOf cs || atEnd cs

/-- The condition of a statement. -/
def readCondition? (statement : List Char) : Option (List Char) :=
  (searchWord? .whereRows (fun rest =>
    (afterBlanks? rest).bind (upTo? anyChar endsCondition)) statement).map trim

/-- Names separated by commas, each without white space around it. -/
def readNames (cs : List Char) : List String :=
  (List.splitOn ',' cs).map fun name => String.ofList (trim name)

/-- What follows `BY` after white space, at the start of a text. -/
def afterBy? (cs : List Char) : Option (List Char) :=
  (afterBlanks? cs).bind (after? .byFields)

/-- Whether `ORDER BY` after white space, a semicolon or the end stands here. -/
def endsGrouping (cs : List Char) : Bool :=
  (afterBlanks? cs).any (fun rest => (afterPair? .order .byFields rest).isSome) ||
    [';'].isPrefixOf cs || atEnd cs

/-- The text of a grouping. If it cannot be read on one line but an ordering follows
after at least two white spaces, it is empty. -/
def groupingAt? (afterGroupBy : List Char) : Option (List Char) :=
  let gap := afterGroupBy.takeWhile isBlank
  let body := afterGroupBy.dropWhile isBlank
  if gap.isEmpty then none
  else
    match upTo? withinLine endsGrouping body with
    | some text => some text
    | none =>
      if 2 ≤ gap.length && (afterPair? .order .byFields body).isSome then some [] else none

/-- The fields by which a statement groups. -/
def readGrouping? (statement : List Char) : Option (List String) :=
  (searchWord? .group (fun rest => (afterBy? rest).bind groupingAt?) statement).map fun text =>
    readNames (trim text)

/-- Whether a semicolon or the end stands here. -/
def endsOrdering (cs : List Char) : Bool :=
  [';'].isPrefixOf cs || atEnd cs

/-- Whether a text has the letters `DESC` in any case. -/
def mentionsDesc (cs : List Char) : Bool :=
  (search? (after? .desc) cs).isSome

/-- The fields by which a statement sorts. One `DESC` in any case makes the whole
order descending; the words `DESC` and `ASC` are taken out in capitals only. -/
def readOrdering? (statement : List Char) : Option Ordering :=
  (searchWord? .order (fun rest =>
    (afterBy? rest).bind fun afterOrderBy =>
      (afterBlanks? afterOrderBy).bind (upTo? withinLine endsOrdering)) statement).map fun text =>
    let names := trim text
    { fields := readNames (replace ['A', 'S', 'C'] [] (replace ['D', 'E', 'S', 'C'] [] names))
      ascending := !mentionsDesc names }

/-! ### Inline rows -/

/-- Whether a closing bracket stands here. -/
def atBracketEnd (cs : List Char) : Bool :=
  [']'].isPrefixOf cs

/-- The text between the brackets after `INLINE`. -/
def inlineText? (statement : List Char) : Option (List Char) :=
  search? (fun rest =>
    (after? .inlineRows rest).bind fun tail =>
      (['['].isPrefixOf? (skipBlanks tail)).bind (upTo? anyChar atBracketEnd)) statement

/-- The words of a text between white space. -/
def words (cs : List Char) : List (List Char) :=
  (List.splitOnP isBlank cs).filter fun word => !word.isEmpty

/-- The cells of one row: between commas if there is one, else between white space. -/
def readRow (line : List Char) : List String :=
  if line.contains ',' then readNames line
  else (words line).map String.ofList

/-- The rows of an inline load, one a line; blank lines are no rows. -/
def readRows (statement : List Char) : List (List String) :=
  match inlineText? statement with
  | none => []
  | some text =>
    (((List.splitOn '\n' (trim text)).map trim).filter fun line => !line.isEmpty).map readRow

end QlikMigration.Script
