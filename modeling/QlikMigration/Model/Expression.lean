import QlikMigration.Model.Basic
import QlikMigration.Text.Blank
import QlikMigration.Text.Casing
import QlikMigration.Text.Cut
import QlikMigration.Text.Search
import QlikMigration.Text.Word

/-!
# What a field expression tells

A field without an alias is named after its expression: a plain name stays, a
call is named after its first argument text, and anything else after its own
characters with blanks and parentheses taken care of. The type of a column and
whether its expression is an aggregation are guessed from the words that occur
in it, in any case and anywhere, also inside longer words. Conditions get the
operators of the generated code.
-/

namespace QlikMigration

open QlikMigration.Text

/-- Whether a text is one word, where a closing line end does not count. -/
def isOneWord (cs : List Char) : Bool :=
  startsWord cs && atEnd (afterWordRun cs)

/-- The argument text of a call at the start of a text: at least one character, up to
the next closing parenthesis, on one line. -/
def callArgument? (cs : List Char) : Option (List Char) :=
  if startsWord cs then
    match afterWordRun cs with
    | '(' :: first :: rest =>
      if withinLine first then (upTo? withinLine ([')'].isPrefixOf) rest).map (first :: ·) else none
    | _ => none
  else none

theorem length_lt_of_callArgument? {cs argument : List Char}
    (h : callArgument? cs = some argument) : argument.length < cs.length := by
  unfold callArgument? at h
  split at h
  · split at h
    · next first rest hafter =>
      split at h
      · obtain ⟨tail, htail, rfl⟩ := Option.map_eq_some_iff.1 h
        have hle := (upTo?_isPrefix htail).length_le
        have hsuffix := (List.dropWhile_suffix isWord (l := cs)).length_le
        simp only [afterWordRun] at hafter
        rw [hafter] at hsuffix
        simp only [List.length_cons] at hsuffix ⊢
        omega
      · simp at h
    · simp at h
  · simp at h

theorem length_lt_of_findFirstAfter? {recognise : Option Char → List Char → Option (List Char)}
    (hshort : ∀ prev cs hit, recognise prev cs = some hit → hit.length < cs.length)
    {prev : Option Char} {cs kept hit : List Char}
    (h : findFirstAfter? recognise prev cs = some (kept, hit)) : hit.length < cs.length := by
  induction cs generalizing prev kept with
  | nil =>
    obtain ⟨_, hhit, heq⟩ := Option.map_eq_some_iff.1 h
    simp only [Prod.mk.injEq] at heq
    exact hshort _ _ _ (heq.2 ▸ hhit)
  | cons c rest ih =>
    unfold findFirstAfter? at h
    split at h
    · next found hfound =>
      simp only [Option.some.injEq, Prod.mk.injEq] at h
      exact hshort _ _ _ (h.2 ▸ hfound)
    · split at h
      · next before found hfound =>
        simp only [Option.some.injEq, Prod.mk.injEq] at h
        have := ih (h.2 ▸ hfound)
        simp only [List.length_cons]
        omega
      · simp at h

/-- The argument text of the first call in a text. -/
def firstArgument? (cs : List Char) : Option (List Char) :=
  search? callArgument? cs

theorem length_lt_of_firstArgument? {cs argument : List Char}
    (h : firstArgument? cs = some argument) : argument.length < cs.length := by
  obtain ⟨⟨kept, hit⟩, hfound, heq⟩ := Option.map_eq_some_iff.1 h
  simp only at heq
  subst heq
  exact length_lt_of_findFirstAfter? (fun _ _ _ h => length_lt_of_callArgument? h) hfound

/-- An expression without white space and quotes around it: first double quotes are
taken off, then single ones. -/
def unquoted (cs : List Char) : List Char :=
  trimOf (· == '\'') (trimOf (· == '"') (trim cs))

theorem length_unquoted_le (cs : List Char) : (unquoted cs).length ≤ cs.length :=
  Nat.le_trans (length_trimOf_le _ _) (Nat.le_trans (length_trimOf_le _ _) (length_trim_le cs))

/-- The characters of an expression as a name: spaces become underscores and
parentheses go. -/
def asName (cs : List Char) : List Char :=
  replaceChar ')' [] (replaceChar '(' [] (replaceChar ' ' ['_'] cs))

/-- The name of a field without an alias. -/
def fieldName (expression : List Char) : List Char :=
  if isOneWord (unquoted expression) then unquoted expression
  else
    match hcall : firstArgument? (unquoted expression) with
    | some argument =>
      have : argument.length < expression.length :=
        Nat.lt_of_lt_of_le (length_lt_of_firstArgument? hcall) (length_unquoted_le expression)
      fieldName argument
    | none => asName (unquoted expression)
termination_by expression.length

/-- Whether one of the given words occurs in a text. -/
def mentionsAny (words : List String) (cs : List Char) : Bool :=
  words.any fun word => contains word.toList cs

/-- The type of a column, guessed from the words in its expression. -/
def inferType (expression : List Char) : DataType :=
  let text := lowerAscii expression
  if mentionsAny ["date", "today", "now", "timestamp"] text then
    if mentionsAny ["timestamp", "now"] text then .timestamp else .date
  else if mentionsAny
      ["year", "month", "day", "count", "sum", "round", "floor", "ceil"] text then
    if mentionsAny ["year", "month", "day", "count"] text then .long else .double
  else .string

/-- Whether an expression mentions an aggregating function. -/
def isAggregate (expression : List Char) : Bool :=
  mentionsAny ["sum", "count", "avg", "min", "max", "first", "last"] (lowerAscii expression)

/-- A condition with the operators of the generated code. Every equals sign is
doubled, also inside a comparison such as `<=`. -/
def convertCondition (condition : List Char) : List Char :=
  let cs := replace [' ', 'A', 'N', 'D', ' '] [' ', '&', ' '] condition
  let cs := replace [' ', 'O', 'R', ' '] [' ', '|', ' '] cs
  let cs := replace [' ', 'N', 'O', 'T', ' '] [' ', '~', ' '] cs
  let cs := replaceChar '=' ['=', '='] cs
  replace ['<', '>'] ['!', '='] cs

end QlikMigration
