/-!
# Blank characters

White space in a script is any character that separates words: the space and
the tabulators, the line and page separators, the four information separators,
and the spaces of every width. The byte order mark and the zero-width space are
not blank, so they stay part of the text around them.
-/

namespace QlikMigration.Text

/-- Whether a character is white space. -/
def isBlank (c : Char) : Bool :=
  let n := c.toNat
  n == 0x20 || (0x9 ≤ n && n ≤ 0xD) || (0x1C ≤ n && n ≤ 0x1F) || n == 0x85 || n == 0xA0 ||
    n == 0x1680 || (0x2000 ≤ n && n ≤ 0x200A) || n == 0x2028 || n == 0x2029 || n == 0x202F ||
    n == 0x205F || n == 0x3000

/-- A text without its leading characters of a class. -/
def trimStartOf (p : Char → Bool) (cs : List Char) : List Char :=
  cs.dropWhile p

/-- A text without its trailing characters of a class. -/
def trimEndOf (p : Char → Bool) (cs : List Char) : List Char :=
  (cs.reverse.dropWhile p).reverse

/-- A text without its leading and trailing characters of a class. -/
def trimOf (p : Char → Bool) (cs : List Char) : List Char :=
  trimEndOf p (trimStartOf p cs)

/-- A text without leading and trailing white space. -/
def trim (cs : List Char) : List Char :=
  trimOf isBlank cs

/-- What follows a non-empty run of white space. -/
def afterBlanks? : List Char → Option (List Char)
  | [] => none
  | c :: rest => if isBlank c then some (rest.dropWhile isBlank) else none

/-- What follows a possibly empty run of white space. -/
def skipBlanks (cs : List Char) : List Char :=
  cs.dropWhile isBlank

theorem length_trimStartOf_le (p : Char → Bool) (cs : List Char) :
    (trimStartOf p cs).length ≤ cs.length :=
  (List.dropWhile_suffix p).length_le

theorem length_trimEndOf_le (p : Char → Bool) (cs : List Char) :
    (trimEndOf p cs).length ≤ cs.length := by
  have h := (List.dropWhile_suffix p (l := cs.reverse)).length_le
  simpa [trimEndOf] using h

theorem length_trimOf_le (p : Char → Bool) (cs : List Char) :
    (trimOf p cs).length ≤ cs.length :=
  Nat.le_trans (length_trimEndOf_le p _) (length_trimStartOf_le p cs)

theorem length_trim_le (cs : List Char) : (trim cs).length ≤ cs.length :=
  length_trimOf_le isBlank cs

end QlikMigration.Text
