import QlikMigration.Spark.Function
import QlikMigration.Text.Cut
import QlikMigration.Text.Digit
import QlikMigration.Text.Search
import QlikMigration.Text.Word

/-!
# Converting expressions

An expression is converted text to text. First the names that are not called
become columns, then calls are converted, then the connectives and comparisons
are replaced. The steps do not know about quotes. A call reaches to the nearest
closing parenthesis, so an inner call ends the outer one.
-/

namespace QlikMigration.Spark

open QlikMigration.Text

/-! ### Columns -/

/-- Whether a word is a connective, which stays as it is. -/
def isConnective (word : List Char) : Bool :=
  [['a', 'n', 'd'], ['o', 'r'], ['n', 'o', 't']].contains (word.map Char.toLower)

/-- Whether a word begins with an ASCII letter or an underscore. -/
def startsPlain : List Char → Bool
  | [] => false
  | c :: _ => c.isAlpha || c == '_'

/-- A word as a column. -/
def columnRef (word : List Char) : List Char :=
  ['c', 'o', 'l', '(', '\''] ++ word ++ ['\'', ')']

/-- A word before the given text, as a column if it is a name that is not called. -/
def wrapWord (word rest : List Char) : List Char :=
  if startsPlain word && !List.isPrefixOf ['('] (skipBlanks rest) && !isConnective word then
    columnRef word
  else
    word

/-- Wraps the words of a text, where `word` is the part of a word read so far. -/
def wrapWords (word : List Char) : List Char → List Char
  | [] => wrapWord word []
  | c :: rest =>
    if isWord c then wrapWords (word ++ [c]) rest
    else wrapWord word (c :: rest) ++ c :: wrapWords [] rest

/-- Whether an expression is left as it is: it has columns already, or it begins with
a quote. -/
def isWrapped (cs : List Char) : Bool :=
  contains ['c', 'o', 'l', '('] cs ||
    ['\''].isPrefixOf (trim cs) || ['"'].isPrefixOf (trim cs)

/-- Turns the names of an expression into columns. -/
def wrapColumns (cs : List Char) : List Char :=
  if isWrapped cs then cs else wrapWords [] cs

/-! ### Calls -/

/-- The converted form of a call, given the text between its parentheses. -/
def convertCall (name argText : List Char) : List Char :=
  match (List.splitOn ',' argText).map fun arg => String.ofList (trim arg) with
  | [] => []
  | first :: rest => (functionCall (String.ofList name) first rest).toList

/-- Converts the calls of a text, where `word` is the part of a word read so far and
the next `skip` characters belong to a call that is already converted. -/
def convertCallsFrom : Nat → List Char → List Char → List Char
  | _, word, [] => word
  | skip + 1, _, _ :: rest => convertCallsFrom skip [] rest
  | 0, word, c :: rest =>
    if isWord c then convertCallsFrom 0 (word ++ [c]) rest
    else if c = '(' ∧ word ≠ [] then
      match upTo? withinLine ([')'].isPrefixOf) rest with
      | some argText => convertCall word argText ++ convertCallsFrom (argText.length + 1) [] rest
      | none => word ++ c :: convertCallsFrom 0 [] rest
    else word ++ c :: convertCallsFrom 0 [] rest

/-- Converts the calls of an expression. -/
def convertCalls (cs : List Char) : List Char :=
  convertCallsFrom 0 [] cs

/-! ### Operators -/

/-- Whether an equals sign after this character belongs to another operator. -/
def joinsEquals : Option Char → Bool
  | none => false
  | some c => c == '=' || c == '!' || c == '<' || c == '>'

/-- Doubles the equals signs that stand alone in a text after `prev`. -/
def doubleEqualsAfter (prev : Option Char) : List Char → List Char
  | [] => []
  | c :: rest =>
    if c == '=' && !joinsEquals prev && !List.isPrefixOf ['='] rest then
      '=' :: '=' :: doubleEqualsAfter (some c) rest
    else
      c :: doubleEqualsAfter (some c) rest

/-- Doubles the equals signs that stand alone. -/
def doubleEquals (cs : List Char) : List Char :=
  doubleEqualsAfter none cs

/-- Replaces the connectives between spaces. -/
def convertConnectives (cs : List Char) : List Char :=
  let cs := replace [' ', 'A', 'N', 'D', ' '] [' ', '&', ' '] cs
  let cs := replace [' ', 'a', 'n', 'd', ' '] [' ', '&', ' '] cs
  let cs := replace [' ', 'O', 'R', ' '] [' ', '|', ' '] cs
  let cs := replace [' ', 'o', 'r', ' '] [' ', '|', ' '] cs
  let cs := replace [' ', 'N', 'O', 'T', ' '] [' ', '~', ' '] cs
  replace [' ', 'n', 'o', 't', ' '] [' ', '~', ' '] cs

/-- Converts an expression. -/
def convertExpression (cs : List Char) : List Char :=
  replace ['<', '>'] ['!', '=']
    (doubleEquals (convertConnectives (convertCalls (wrapColumns cs))))

/-! ### Values and names -/

/-- The value of a variable: a quoted text or a number stays, the current date or time
is called for, and anything else becomes a quoted text. -/
def variableValue (cs : List Char) : List Char :=
  let value := trim cs
  if ['\''].isPrefixOf value && ['\''].isSuffixOf value then value
  else if isDigits value || isPlainDecimal value then value
  else if contains "Today()".toList value then "datetime.now().date()".toList
  else if contains "Now()".toList value then "datetime.now()".toList
  else '\'' :: value ++ ['\'']

/-- A character of a data frame's name: anything but an ASCII letter, digit or
underscore becomes an underscore. -/
def frameChar (c : Char) : Char :=
  if c.isAlphanum || c == '_' then c.toLower else '_'

/-- The name of the data frame of a table. A leading digit gets an underscore before
it. -/
def frameName (table : String) : String :=
  let name := table.toList.map frameChar
  let name := match name with
    | c :: rest => if c.isDigit then '_' :: c :: rest else c :: rest
    | [] => []
  String.ofList ('d' :: 'f' :: '_' :: name)

end QlikMigration.Spark
