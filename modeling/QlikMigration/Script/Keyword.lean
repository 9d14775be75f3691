import QlikMigration.Text.Blank
import QlikMigration.Text.Word
import QlikMigration.Text.Search

/-!
# Keywords

Keywords are recognised without regard to case. Beyond the two forms of each
ASCII letter three further characters count: the long s for S, the kelvin sign
for K, and the dotless and dotted i for I. A keyword is given by its capital
letters. Some clauses want the keyword to stand as a word of its own, others
take it wherever its letters occur; both forms are here, together with the
white space that may separate two keywords.
-/

namespace QlikMigration.Script

open QlikMigration.Text

/-- The words that give a load script its structure. -/
inductive Keyword
  | letVariable
  | setVariable
  | mapping
  | load
  | join
  | left
  | right
  | inner
  | outer
  | distinct
  | fromSource
  | resident
  | inlineRows
  | whereRows
  | group
  | order
  | byFields
  | asName
  | remark
  | desc
  deriving DecidableEq, Repr

namespace Keyword

/-- The capital letters of a keyword. -/
def letters : Keyword → List Char
  | letVariable => ['L', 'E', 'T']
  | setVariable => ['S', 'E', 'T']
  | mapping => ['M', 'A', 'P', 'P', 'I', 'N', 'G']
  | load => ['L', 'O', 'A', 'D']
  | join => ['J', 'O', 'I', 'N']
  | left => ['L', 'E', 'F', 'T']
  | right => ['R', 'I', 'G', 'H', 'T']
  | inner => ['I', 'N', 'N', 'E', 'R']
  | outer => ['O', 'U', 'T', 'E', 'R']
  | distinct => ['D', 'I', 'S', 'T', 'I', 'N', 'C', 'T']
  | fromSource => ['F', 'R', 'O', 'M']
  | resident => ['R', 'E', 'S', 'I', 'D', 'E', 'N', 'T']
  | inlineRows => ['I', 'N', 'L', 'I', 'N', 'E']
  | whereRows => ['W', 'H', 'E', 'R', 'E']
  | group => ['G', 'R', 'O', 'U', 'P']
  | order => ['O', 'R', 'D', 'E', 'R']
  | byFields => ['B', 'Y']
  | asName => ['A', 'S']
  | remark => ['R', 'E', 'M']
  | desc => ['D', 'E', 'S', 'C']

end Keyword

/-- Whether a character stands for a capital letter of a keyword. -/
def letterMatches (letter c : Char) : Bool :=
  c.toUpper == letter ||
    (letter == 'S' && c.toNat == 0x17F) ||
    (letter == 'K' && c.toNat == 0x212A) ||
    (letter == 'I' && (c.toNat == 0x131 || c.toNat == 0x130))

/-- What follows the given capital letters in any case. -/
def afterLetters? : List Char → List Char → Option (List Char)
  | [], cs => some cs
  | _ :: _, [] => none
  | letter :: letters, c :: cs =>
    if letterMatches letter c then afterLetters? letters cs else none

/-- What follows a keyword at the start of a text. -/
def after? (keyword : Keyword) (cs : List Char) : Option (List Char) :=
  afterLetters? keyword.letters cs

/-- What follows a keyword and at least one white space after it. -/
def afterSpaced? (keyword : Keyword) (cs : List Char) : Option (List Char) :=
  (after? keyword cs).bind afterBlanks?

/-- What follows two keywords with white space between them. -/
def afterPair? (first second : Keyword) (cs : List Char) : Option (List Char) :=
  (afterSpaced? first cs).bind (after? second)

/-- Whether a word can start after the character before it. -/
def wordMayStart : Option Char → Bool
  | none => true
  | some c => !isWord c

/-- Whether the given letters stand as a word of their own somewhere in a text. -/
def hasWordOf (letters : List Char) (cs : List Char) : Bool :=
  (findFirst? (fun prev rest =>
    if wordMayStart prev then
      (afterLetters? letters rest).filter fun tail => !startsWord tail
    else
      none) cs).isSome

/-- Whether a keyword stands as a word of its own somewhere in a text. -/
def hasWord (keyword : Keyword) (cs : List Char) : Bool :=
  hasWordOf keyword.letters cs

/-- What follows the first place where a keyword starts a word and `next?` accepts
what comes after it. -/
def searchWord? {α : Type} (keyword : Keyword) (next? : List Char → Option α)
    (cs : List Char) : Option α :=
  (findFirst? (fun prev rest =>
    if wordMayStart prev then (after? keyword rest).bind next? else none) cs).map Prod.snd

end QlikMigration.Script
