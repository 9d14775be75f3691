/-!
# Ranges of code points

The properties of characters that the script reader needs beyond ASCII are
finite sets. A small one is given by its closed ranges, a large one by the
lengths of the runs of code points outside and inside, in turn. This module
holds the look-ups; each property has its own module with its own list.
-/

namespace QlikMigration.Text

/-- A closed range of code points, first and last. -/
abbrev CodeRange := Nat × Nat

/-- Whether a character lies in one of the listed ranges. -/
def inRanges (ranges : List CodeRange) (c : Char) : Bool :=
  ranges.any fun range => range.1 ≤ c.toNat && c.toNat ≤ range.2

/-- Whether a code point lies in an inner run, if the first of the runs is an inner one or not.
What follows all runs is outside. -/
def inRunsFrom (inside : Bool) : List Nat → Nat → Bool
  | [], _ => false
  | length :: rest, code =>
    if code < length then inside else inRunsFrom (!inside) rest (code - length)

/-- Whether a character lies in one of the inner runs, the second, the fourth and so on. -/
def inRuns (lengths : List Nat) (c : Char) : Bool :=
  inRunsFrom false lengths c.toNat

end QlikMigration.Text
