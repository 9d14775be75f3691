/-!
# Splitting at the top level

A field list is split at its commas, but not at those inside parentheses or
quotes. The scan keeps the depth of parentheses and the quote that is open. The
depth may become negative on an unmatched closing parenthesis, and a delimiter
counts only at depth zero, so such a text is not split any further until the
depth is zero again.
-/

namespace QlikMigration.Script

/-- The state of a scan: the depth of parentheses and the quote that is open. -/
structure Nesting where
  depth : Int
  quote : Option Char
  deriving DecidableEq, Repr

namespace Nesting

/-- Outside every parenthesis and every quote. -/
def neutral : Nesting := ⟨0, none⟩

/-- The state after a character. A quote closes only by the character that opened
it, and parentheses inside quotes do not count. -/
def step (nesting : Nesting) (c : Char) : Nesting :=
  match nesting.quote with
  | some quote => if c = quote then { nesting with quote := none } else nesting
  | none =>
    if c = '"' ∨ c = '\'' then { nesting with quote := some c }
    else if c = '(' then { nesting with depth := nesting.depth + 1 }
    else if c = ')' then { nesting with depth := nesting.depth - 1 }
    else nesting

/-- The state after a text. -/
def run (nesting : Nesting) (cs : List Char) : Nesting :=
  cs.foldl step nesting

end Nesting

/-- Whether a character changes the nesting outside of quotes. -/
def isNestingMark (c : Char) : Bool :=
  c == '"' || c == '\'' || c == '(' || c == ')'

/-- Whether a delimiter read in a state ends a part. -/
def endsPart (isDelimiter : Char → Bool) (nesting : Nesting) (c : Char) : Bool :=
  nesting == Nesting.neutral && isDelimiter c && !isNestingMark c

/-- The parts of a text, the last one possibly empty. -/
def topLevelParts (isDelimiter : Char → Bool) : Nesting → List Char → List (List Char)
  | _, [] => [[]]
  | nesting, c :: rest =>
    if endsPart isDelimiter nesting c then
      [] :: topLevelParts isDelimiter nesting rest
    else
      match topLevelParts isDelimiter (nesting.step c) rest with
      | [] => [[c]]
      | part :: parts => (c :: part) :: parts

/-- A list of parts without an empty last part. -/
def dropEmptyLast : List (List Char) → List (List Char)
  | [] => []
  | [part] => if part.isEmpty then [] else [part]
  | part :: parts => part :: dropEmptyLast parts

/-- The parts of a text between the delimiters that stand outside parentheses and
quotes. An empty part after the last delimiter is not listed. -/
def splitTopLevel (isDelimiter : Char → Bool) (cs : List Char) : List (List Char) :=
  dropEmptyLast (topLevelParts isDelimiter Nesting.neutral cs)

end QlikMigration.Script
