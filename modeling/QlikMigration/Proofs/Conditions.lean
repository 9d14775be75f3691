import Mathlib.Data.Bool.AllAny
import QlikMigration.Model.Expression
import QlikMigration.Proofs.ReadFailure
import QlikMigration.Proofs.Rewriting

/-!
# Conditions and how they are converted

A simple condition compares columns with integers and connects the comparisons
by `AND` and `OR`, with or without parentheses. It is written as a row of
lexemes; how the columns, operators and connectives among them are spelled
changes from pass to pass of the conversion, while the row stays the same.

The condition of a table load is converted twice, once when the model is built
and once when the program is written; the condition of a mapping load is
converted once. The two ways agree exactly if the condition has no `<=` and no
`>=`: the first conversion doubles the equals sign of these two operators, and
the second leaves a doubled sign alone.
-/

namespace QlikMigration.Spark

open QlikMigration.Text QlikMigration.Script

/-! ## Conditions -/

/-- The name of a column: a word that begins with an ASCII letter or an underscore and is
no connective. -/
structure ColumnName where
  chars : List Char
  word : chars.all isWord = true
  plain : startsPlain chars = true
  unconnective : isConnective chars = false
  deriving DecidableEq

/-- The six ways to compare. -/
inductive Operator
  | equal
  | unequal
  | less
  | greater
  | atMost
  | atLeast
  deriving DecidableEq, Repr

/-- The two ways to connect comparisons. -/
inductive Connective
  | both
  | either
  deriving DecidableEq, Repr

/-- The numbers of spaces before and after something. -/
structure Spacing where
  before : Nat
  after : Nat
  deriving DecidableEq, Repr

/-- A comparison of a column with an integer. -/
structure Comparison where
  column : ColumnName
  operator : Operator
  spacing : Spacing
  value : Int
  deriving DecidableEq

/-- A condition as it is written. The spacing of a connective is what stands on its sides
beyond one space each. -/
inductive Condition
  | compare (comparison : Comparison)
  | group (inner : Condition)
  | connect (left : Condition) (connective : Connective) (spacing : Spacing) (right : Condition)
  deriving DecidableEq

/-- The operators of a condition, from left to right. -/
def Condition.operators : Condition → List Operator
  | compare comparison => [comparison.operator]
  | group inner => inner.operators
  | connect left _ _ right => left.operators ++ right.operators

/-! ## Lexemes -/

/-- The smallest parts of a condition. A connective has one space on each side. -/
inductive Lexeme
  | space
  | column (name : ColumnName)
  | integer (value : Int)
  | operator (operator : Operator)
  | connective (connective : Connective)
  | opening
  | closing
  deriving DecidableEq

/-- Lexemes with spaces around them. -/
def Spacing.around (spacing : Spacing) (lexeme : Lexeme) : List Lexeme :=
  List.replicate spacing.before .space ++ lexeme :: List.replicate spacing.after .space

def Comparison.lexemes (comparison : Comparison) : List Lexeme :=
  .column comparison.column ::
    (comparison.spacing.around (.operator comparison.operator) ++ [.integer comparison.value])

def Condition.lexemes : Condition → List Lexeme
  | compare comparison => comparison.lexemes
  | group inner => .opening :: (inner.lexemes ++ [.closing])
  | connect left connective spacing right =>
    left.lexemes ++ (spacing.around (.connective connective) ++ right.lexemes)

/-- The decimal notation of an integer. -/
def integerChars : Int → List Char
  | .ofNat value => Nat.toDigits 10 value
  | .negSucc value => '-' :: Nat.toDigits 10 (value + 1)

/-- How the parts of a condition are spelled at some point of its conversion. -/
@[ext]
structure Spelling where
  /-- Whether names are wrapped as columns. -/
  wrapped : Bool
  operator : Operator → List Char
  connective : Connective → List Char

/-- The characters of a lexeme. -/
def Spelling.text (spelling : Spelling) : Lexeme → List Char
  | .space => [' ']
  | .column name => if spelling.wrapped then columnRef name.chars else name.chars
  | .integer value => integerChars value
  | .operator operator => spelling.operator operator
  | .connective connective => ' ' :: (spelling.connective connective ++ [' '])
  | .opening => ['(']
  | .closing => [')']

/-- The characters of a row of lexemes. -/
def Spelling.write (spelling : Spelling) (lexemes : List Lexeme) : List Char :=
  lexemes.flatMap spelling.text

/-- An operator in a script. -/
def Operator.written : Operator → List Char
  | equal => ['=']
  | unequal => ['<', '>']
  | less => ['<']
  | greater => ['>']
  | atMost => ['<', '=']
  | atLeast => ['>', '=']

/-- An operator in a program. -/
def Operator.symbol : Operator → List Char
  | equal => ['=', '=']
  | unequal => ['!', '=']
  | less => ['<']
  | greater => ['>']
  | atMost => ['<', '=']
  | atLeast => ['>', '=']

/-- An operator with every equals sign doubled; in two cases a program has no such operator. -/
def Operator.doubled : Operator → List Char
  | equal => ['=', '=']
  | unequal => ['!', '=']
  | less => ['<']
  | greater => ['>']
  | atMost => ['<', '=', '=']
  | atLeast => ['>', '=', '=']

/-- A connective in a script. -/
def Connective.word : Connective → List Char
  | both => ['A', 'N', 'D']
  | either => ['O', 'R']

/-- A connective in a program. -/
def Connective.symbol : Connective → List Char
  | both => ['&']
  | either => ['|']

/-- The spelling of a script. -/
def Spelling.script : Spelling :=
  ⟨false, Operator.written, Connective.word⟩

/-- The spelling of a program. -/
def Spelling.program : Spelling :=
  ⟨true, Operator.symbol, Connective.symbol⟩

/-- The spelling of a model: names are bare, and all equals signs are doubled. -/
def Spelling.model : Spelling :=
  ⟨false, Operator.doubled, Connective.symbol⟩

/-- A condition as it stands in a script. -/
def Condition.text (condition : Condition) : List Char :=
  Spelling.script.write condition.lexemes

@[simp]
theorem Spelling.write_nil (spelling : Spelling) : spelling.write [] = [] := rfl

@[simp]
theorem Spelling.write_cons (spelling : Spelling) (lexeme : Lexeme) (rest : List Lexeme) :
    spelling.write (lexeme :: rest) = spelling.text lexeme ++ spelling.write rest := rfl

/-! ## Lawful spellings and rows without collisions -/

/-- The characters of operators. -/
def operatorChars : List Char :=
  ['=', '!', '<', '>']

/-- Whether a text is made of characters of operators. -/
def operates (spelled : List Char) : Bool :=
  !spelled.isEmpty && spelled.all operatorChars.contains

/-- The words that connect comparisons in a script. -/
def connectiveWords : List (List Char) :=
  [['A', 'N', 'D'], ['a', 'n', 'd'], ['O', 'R'], ['o', 'r'], ['N', 'O', 'T'], ['n', 'o', 't']]

/-- The marks that stand for them in a program. -/
def connectiveMarks : List (List Char) :=
  [['&'], ['|'], ['~']]

/-- Operators are spelled by characters of operators, and connectives by words or marks of
connectives. -/
structure Spelling.Lawful (spelling : Spelling) : Prop where
  operators : ∀ operator, operates (spelling.operator operator) = true
  connective_cases : ∀ connective, spelling.connective connective ∈ connectiveWords ∨
    spelling.connective connective ∈ connectiveMarks

/-- Whether a lexeme is a column or an integer. -/
def Lexeme.isOperand : Lexeme → Bool
  | column _ | integer _ => true
  | _ => false

/-- Whether a lexeme is an operator. -/
def Lexeme.isOperator : Lexeme → Bool
  | operator _ => true
  | _ => false

/-- Whether a lexeme is a space or has spaces around it. -/
def Lexeme.isSpaced : Lexeme → Bool
  | space | connective _ => true
  | _ => false

/-- Whether an opening parenthesis comes next, spaces apart. -/
def opensNext : List Lexeme → Bool
  | .space :: rest => opensNext rest
  | .opening :: _ => true
  | _ => false

/-- A row in which no two operands and no two operators touch, and no operand stands before
a parenthesis as if it were called. -/
def Laid : List Lexeme → Prop
  | [] => True
  | lexeme :: rest =>
    (lexeme.isOperand = true → rest.head?.any Lexeme.isOperand = false ∧ opensNext rest = false) ∧
      (lexeme.isOperator = true → rest.head?.any Lexeme.isOperator = false) ∧ Laid rest

/-! ## The characters of lexemes -/

theorem toNat_of_isDigit {c : Char} (hdigit : c.isDigit = true) :
    48 ≤ c.toNat ∧ c.toNat < 58 := by
  simp only [Char.isDigit, Bool.and_eq_true, decide_eq_true_eq] at hdigit
  have hlow : 48 ≤ c.toNat := UInt32.le_iff_toNat_le.mp hdigit.1
  have hhigh : c.toNat ≤ 57 := UInt32.le_iff_toNat_le.mp hdigit.2
  omega

theorem isWord_of_isDigit {c : Char} (hdigit : c.isDigit = true) : isWord c = true := by
  have hall : ∀ n < 58, 48 ≤ n → isWord (Char.ofNat n) = true := by decide
  obtain ⟨hlow, hhigh⟩ := toNat_of_isDigit hdigit
  have hword := hall c.toNat hhigh hlow
  rwa [Char.ofNat_toNat] at hword

/-- A number is not a name. -/
theorem startsPlain_of_isDigit {c : Char} (hdigit : c.isDigit = true) (rest : List Char) :
    startsPlain (c :: rest) = false := by
  have hall : ∀ n < 58, 48 ≤ n → startsPlain (Char.ofNat n :: rest) = false := by
    simp only [startsPlain]
    decide
  obtain ⟨hlow, hhigh⟩ := toNat_of_isDigit hdigit
  have hplain := hall c.toNat hhigh hlow
  rwa [Char.ofNat_toNat] at hplain

/-- The digits of a number are ASCII digits. -/
theorem isDigit_of_mem_toDigits {value : Nat} {c : Char} (hc : c ∈ Nat.toDigits 10 value) :
    c.isDigit = true :=
  Nat.isDigit_of_mem_toDigits (by decide) (by decide) hc

theorem toNat_of_mem_toDigits {value : Nat} {c : Char} (hc : c ∈ Nat.toDigits 10 value) :
    48 ≤ c.toNat ∧ c.toNat < 58 :=
  toNat_of_isDigit (isDigit_of_mem_toDigits hc)

theorem isWord_of_mem_toDigits {value : Nat} {c : Char} (hc : c ∈ Nat.toDigits 10 value) :
    isWord c = true :=
  isWord_of_isDigit (isDigit_of_mem_toDigits hc)

theorem startsPlain_toDigits (value : Nat) : startsPlain (Nat.toDigits 10 value) = false := by
  cases hdigits : Nat.toDigits 10 value with
  | nil => rfl
  | cons c rest =>
      exact startsPlain_of_isDigit (isDigit_of_mem_toDigits (hdigits ▸ List.mem_cons_self)) rest

theorem ColumnName.isWord_of_mem (name : ColumnName) : ∀ c ∈ name.chars, isWord c = true :=
  List.all_eq_true.mp name.word

theorem ColumnName.exists_cons (name : ColumnName) : ∃ c rest, name.chars = c :: rest := by
  apply List.exists_cons_of_ne_nil
  intro hnil
  have hplain := name.plain
  rw [hnil] at hplain
  exact Bool.false_ne_true hplain

/-- No character of an operator is part of a word. -/
theorem isWord_of_mem_operatorChars {c : Char} (hc : c ∈ operatorChars) : isWord c = false := by
  have hall : ∀ c ∈ operatorChars, isWord c = false := List.all_iff_forall_prop.mp (by decide)
  exact hall c hc

theorem not_mem_operatorChars_of_isWord {c : Char} (hc : isWord c = true) : c ∉ operatorChars :=
  fun hmem => ne_of_isWord hc (isWord_of_mem_operatorChars hmem) rfl

theorem of_mem_connectiveWords : ∀ word ∈ connectiveWords,
    (∀ c ∈ word, isWord c = true) ∧ startsPlain word = true ∧ isConnective word = true := by
  have hall : ∀ word ∈ connectiveWords,
      word.all isWord = true ∧ startsPlain word = true ∧ isConnective word = true := by decide
  exact fun word hword => (hall word hword).imp_left List.all_eq_true.mp

theorem wordless_of_mem_connectiveMarks : ∀ mark ∈ connectiveMarks, Wordless mark := by
  have hall : ∀ mark ∈ connectiveMarks, mark.all (fun c => decide (isWord c = false)) = true := by
    decide
  exact fun mark hmark => List.all_iff_forall_prop.mp (hall mark hmark)

/-- The characters with which a lexeme may begin. -/
def Lexeme.Begins : Lexeme → Char → Prop
  | space, c | connective _, c => c = ' '
  | column _, c => isWord c = true
  | integer _, c => isWord c = true ∨ c = '-'
  | operator _, c => c ∈ operatorChars
  | opening, c => c = '('
  | closing, c => c = ')'

namespace Spelling

variable {spelling : Spelling}

theorem Lawful.operator_ne_nil (hlawful : spelling.Lawful) (operator : Operator) :
    spelling.operator operator ≠ [] := by
  simpa using (Bool.and_eq_true_iff.mp (hlawful.operators operator)).1

theorem Lawful.mem_operatorChars (hlawful : spelling.Lawful) {operator : Operator} {c : Char}
    (hc : c ∈ spelling.operator operator) : c ∈ operatorChars := by
  have hall := (Bool.and_eq_true_iff.mp (hlawful.operators operator)).2
  exact List.contains_iff_mem.mp (List.all_eq_true.mp hall c hc)

theorem Lawful.wordless_operator (hlawful : spelling.Lawful) (operator : Operator) :
    Wordless (spelling.operator operator) :=
  fun _ hc => isWord_of_mem_operatorChars (hlawful.mem_operatorChars hc)

theorem Lawful.exists_connective_eq_cons (hlawful : spelling.Lawful) (connective : Connective) :
    ∃ c rest, spelling.connective connective = c :: rest ∧ isBlank c = false ∧ c ≠ '(' := by
  have hall : ∀ spelled ∈ connectiveWords ++ connectiveMarks,
      spelled.head?.any (fun c => !isBlank c && c != '(') = true := by decide
  have hhead := hall _ (List.mem_append.mpr (hlawful.connective_cases connective))
  cases hspelled : spelling.connective connective with
  | nil => simp [hspelled] at hhead
  | cons c rest => exact ⟨c, rest, rfl, by simpa [hspelled] using hhead⟩

/-- Every lexeme has a first character of its kind. -/
theorem Lawful.exists_text_eq_cons (hlawful : spelling.Lawful) (lexeme : Lexeme) :
    ∃ c rest, spelling.text lexeme = c :: rest ∧ lexeme.Begins c := by
  cases lexeme with
  | space => exact ⟨' ', [], rfl, rfl⟩
  | column name =>
      obtain ⟨c, rest, hname⟩ := name.exists_cons
      cases hwrapped : spelling.wrapped with
      | true =>
          have hletter : isWord 'c' = true := by decide
          exact ⟨'c', _, by simp [text, hwrapped, columnRef]; rfl, hletter⟩
      | false =>
          refine ⟨c, rest, by simp [text, hwrapped, hname], ?_⟩
          exact name.isWord_of_mem c (hname ▸ List.mem_cons_self)
  | integer value =>
      cases value with
      | ofNat value =>
          obtain ⟨c, rest, hdigits⟩ := List.exists_cons_of_ne_nil (Nat.toDigits_ne_nil (n := value))
          exact ⟨c, rest, hdigits, Or.inl (isWord_of_mem_toDigits (hdigits ▸ List.mem_cons_self))⟩
      | negSucc value => exact ⟨'-', _, rfl, Or.inr rfl⟩
  | operator operator =>
      obtain ⟨c, rest, hspelled⟩ := List.exists_cons_of_ne_nil (hlawful.operator_ne_nil operator)
      exact ⟨c, rest, hspelled, hlawful.mem_operatorChars (hspelled ▸ List.mem_cons_self)⟩
  | connective connective => exact ⟨' ', _, rfl, rfl⟩
  | opening => exact ⟨'(', [], rfl, rfl⟩
  | closing => exact ⟨')', [], rfl, rfl⟩

/-- A row that is not empty begins like its first lexeme. -/
theorem Lawful.begins_of_mem_head? (hlawful : spelling.Lawful) {lexemes : List Lexeme} {c : Char}
    (hc : c ∈ (spelling.write lexemes).head?) : ∃ lexeme ∈ lexemes.head?, lexeme.Begins c := by
  cases lexemes with
  | nil => exact absurd hc (by simp)
  | cons lexeme rest =>
      obtain ⟨first, tail, htext, hbegins⟩ := hlawful.exists_text_eq_cons lexeme
      rw [write_cons, htext] at hc
      obtain rfl : first = c := by simpa using hc
      exact ⟨lexeme, rfl, hbegins⟩

/-- Where no operand comes next, no word goes on. -/
theorem Lawful.startsWord_write (hlawful : spelling.Lawful) {lexemes : List Lexeme}
    (h : lexemes.head?.any Lexeme.isOperand = false) :
    startsWord (spelling.write lexemes) = false := by
  cases hwrite : spelling.write lexemes with
  | nil => rfl
  | cons c rest =>
      obtain ⟨lexeme, hlexeme, hbegins⟩ := hlawful.begins_of_mem_head? (c := c)
        (by rw [hwrite]; rfl)
      rw [Option.mem_def.mp hlexeme, Option.any_some] at h
      cases lexeme with
      | column name => cases h
      | integer value => cases h
      | operator operator => exact isWord_of_mem_operatorChars hbegins
      | space | connective _ | opening | closing =>
          obtain rfl := hbegins
          rfl

/-- Where no operator comes next, none goes on. -/
theorem Lawful.not_mem_operatorChars (hlawful : spelling.Lawful) {lexemes : List Lexeme}
    (h : lexemes.head?.any Lexeme.isOperator = false) {c : Char}
    (hc : c ∈ (spelling.write lexemes).head?) : c ∉ operatorChars := by
  obtain ⟨lexeme, hlexeme, hbegins⟩ := hlawful.begins_of_mem_head? hc
  rw [Option.mem_def.mp hlexeme, Option.any_some] at h
  cases lexeme with
  | operator operator => cases h
  | column name => exact not_mem_operatorChars_of_isWord hbegins
  | integer value =>
      rcases hbegins with hword | rfl
      · exact not_mem_operatorChars_of_isWord hword
      · decide
  | space | connective _ | opening | closing =>
      obtain rfl := hbegins
      decide

/-- Where no parenthesis opens next, none stands after the blanks. -/
theorem Lawful.isPrefixOf_skipBlanks_write (hlawful : spelling.Lawful) {lexemes : List Lexeme}
    (h : opensNext lexemes = false) :
    ['('].isPrefixOf (skipBlanks (spelling.write lexemes)) = false := by
  have hvisible : ∀ c tail, isBlank c = false → c ≠ '(' →
      ['('].isPrefixOf (skipBlanks (c :: tail)) = false := by
    intro c tail hblank hne
    rw [skipBlanks, List.dropWhile_cons_of_neg (by simp [hblank]), isPrefixOf_singleton]
    simp [hne]
  have hword : ∀ c tail, isWord c = true → ['('].isPrefixOf (skipBlanks (c :: tail)) = false :=
    fun c tail hc => hvisible c tail (isBlank_of_isWord hc) (ne_of_isWord hc (by decide))
  induction lexemes with
  | nil => rfl
  | cons lexeme rest ih =>
      obtain ⟨c, tail, htext, hbegins⟩ := hlawful.exists_text_eq_cons lexeme
      cases lexeme with
      | space => exact ih h
      | column name =>
          rw [write_cons, htext]
          exact hword c _ hbegins
      | integer value =>
          rw [write_cons, htext]
          rcases hbegins with hdigit | rfl
          · exact hword c _ hdigit
          · rfl
      | operator operator =>
          have hall : ∀ c ∈ operatorChars, isBlank c = false ∧ c ≠ '(' :=
            List.all_iff_forall_prop.mp (by decide)
          rw [write_cons, htext]
          exact hvisible c _ (hall c hbegins).1 (hall c hbegins).2
      | connective connective =>
          obtain ⟨first, tail, hspelled, hblank, hne⟩ :=
            hlawful.exists_connective_eq_cons connective
          show ['('].isPrefixOf (skipBlanks
            (spelling.connective connective ++ [' '] ++ spelling.write rest)) = false
          rw [hspelled]
          exact hvisible first _ hblank hne
      | opening => cases h
      | closing => rfl

/-- Where no parenthesis opens next, none stands at the start. -/
theorem Lawful.not_mem_head?_of_opensNext (hlawful : spelling.Lawful) {lexemes : List Lexeme}
    (h : opensNext lexemes = false) : '(' ∉ (spelling.write lexemes).head? := by
  intro hmem
  have hskip := hlawful.isPrefixOf_skipBlanks_write h
  cases hwrite : spelling.write lexemes with
  | nil => simp [hwrite] at hmem
  | cons c rest =>
      obtain rfl : c = '(' := by simpa [hwrite] using hmem
      rw [hwrite] at hskip
      exact absurd hskip (by simp [skipBlanks, isBlank])

/-! ## Wrapping names and converting calls -/

/-- A spelling in which names are wrapped. -/
def wrap (spelling : Spelling) : Spelling :=
  { spelling with wrapped := true }

theorem Lawful.wrap (hlawful : spelling.Lawful) : spelling.wrap.Lawful :=
  ⟨hlawful.operators, hlawful.connective_cases⟩

/-- A pass that keeps separators and words and wraps names does so along a whole row. -/
theorem Lawful.pass_write_of_words (hlawful : spelling.Lawful) {pass : List Char → List Char}
    (hnil : pass [] = [])
    (hseparator : ∀ c rest, isWord c = false → pass (c :: rest) = c :: pass rest)
    (hword : ∀ word rest, (∀ c ∈ word, isWord c = true) →
      (startsPlain word = false ∨ isConnective word = true) → startsWord rest = false →
      '(' ∉ rest.head? → pass (word ++ rest) = word ++ pass rest)
    (hcolumn : ∀ (name : ColumnName) (rest : List Char), startsWord rest = false →
      ['('].isPrefixOf (skipBlanks rest) = false →
      pass (spelling.text (.column name) ++ rest) = columnRef name.chars ++ pass rest)
    {lexemes : List Lexeme} (hlaid : Laid lexemes) :
    pass (spelling.write lexemes) = spelling.wrap.write lexemes := by
  have hwordless : ∀ front rest, Wordless front → pass (front ++ rest) = front ++ pass rest := by
    intro front rest hfront
    induction front with
    | nil => rfl
    | cons c front ih =>
        rw [List.cons_append, hseparator c _ (hfront c List.mem_cons_self),
          ih fun d hd => hfront d (List.mem_cons_of_mem c hd), List.cons_append]
  induction lexemes with
  | nil => exact hnil
  | cons lexeme rest ih =>
      obtain ⟨hoperand, -, hrest⟩ := hlaid
      rw [write_cons, write_cons, ← ih hrest]
      cases lexeme with
      | column name =>
          obtain ⟨hnext, hopens⟩ := hoperand rfl
          exact hcolumn name _ (hlawful.startsWord_write hnext)
            (hlawful.isPrefixOf_skipBlanks_write hopens)
      | integer value =>
          obtain ⟨hnext, hopens⟩ := hoperand rfl
          have hdigits : ∀ number, pass (Nat.toDigits 10 number ++ spelling.write rest) =
              Nat.toDigits 10 number ++ pass (spelling.write rest) := fun number =>
            hword _ _ (fun _ => isWord_of_mem_toDigits) (Or.inl (startsPlain_toDigits number))
              (hlawful.startsWord_write hnext) (hlawful.not_mem_head?_of_opensNext hopens)
          cases value with
          | ofNat number => exact hdigits number
          | negSucc number =>
              show pass ('-' :: (Nat.toDigits 10 (number + 1) ++ spelling.write rest)) = _
              rw [hseparator _ _ (by decide), hdigits]
              rfl
      | connective connective =>
          have hspelled : pass (spelling.connective connective ++ ' ' :: spelling.write rest) =
              spelling.connective connective ++ pass (' ' :: spelling.write rest) := by
            rcases hlawful.connective_cases connective with hletters | hmark
            · obtain ⟨hword', -, hconnective⟩ := of_mem_connectiveWords _ hletters
              exact hword _ _ hword' (Or.inr hconnective) rfl (by simp)
            · exact hwordless _ _ (wordless_of_mem_connectiveMarks _ hmark)
          show pass (' ' :: ((spelling.connective connective ++ [' ']) ++ spelling.write rest)) = _
          rw [hseparator _ _ (by decide), List.append_assoc, List.singleton_append, hspelled,
            hseparator _ _ (by decide)]
          show _ = ' ' :: ((spelling.connective connective ++ [' ']) ++ _)
          rw [List.append_assoc, List.singleton_append]
      | operator operator => exact hwordless _ _ (hlawful.wordless_operator operator)
      | space => exact hseparator _ _ (by decide)
      | opening => exact hseparator _ _ (by decide)
      | closing => exact hseparator _ _ (by decide)

/-- The names of a row are wrapped, and nothing else changes. -/
theorem Lawful.wrapWords_write (hlawful : spelling.Lawful) (hbare : spelling.wrapped = false)
    {lexemes : List Lexeme} (hlaid : Laid lexemes) :
    wrapWords [] (spelling.write lexemes) = spelling.wrap.write lexemes := by
  refine hlawful.pass_write_of_words rfl (fun c rest hc => wrapWords_cons hc rest) ?_ ?_ hlaid
  · intro word rest hword hkept hrest _
    rw [wrapWords_append hword hrest, wrapWord]
    rcases hkept with hplain | hconnective
    · rw [hplain]
      rfl
    · simp [hconnective]
  · intro name rest hrest hopens
    have hname : wrapWord name.chars rest = columnRef name.chars := by
      rw [wrapWord, name.plain, name.unconnective, hopens]
      rfl
    rw [text, hbare, if_neg Bool.false_ne_true, wrapWords_append name.isWord_of_mem hrest, hname]

/-- A row whose names are wrapped has no calls but these. -/
theorem Lawful.convertCalls_write (hlawful : spelling.Lawful) {lexemes : List Lexeme}
    (hlaid : Laid lexemes) :
    convertCalls (spelling.wrap.write lexemes) = spelling.wrap.write lexemes :=
  hlawful.wrap.pass_write_of_words rfl (fun _ rest hc => convertCalls_cons hc rest)
    (fun _ _ hword _ hrest hopen => convertCalls_append hword hrest hopen)
    (fun name rest _ _ => convertCalls_columnRef name.isWord_of_mem rest) hlaid

/-! ## Names not wrapped before -/

/-- The characters of conditions that are neither in words nor in operators nor spaces. -/
def marks : List Char :=
  ['-', '&', '|', '~', '(', ')']

/-- What a character of a lexeme can be. -/
inductive Uses (spelling : Spelling) (lexeme : Lexeme) (c : Char) : Prop
  | operator (hlexeme : lexeme.isOperator = true) (hc : c ∈ operatorChars)
  | space (hlexeme : lexeme.isSpaced = true) (hc : c = ' ')
  | word (hc : isWord c = true)
  | mark (hc : c ∈ marks)
  | quote (hwrapped : spelling.wrapped = true) (hc : c = '\'')

theorem Lawful.uses_of_mem_text (hlawful : spelling.Lawful) {lexeme : Lexeme} {c : Char}
    (hc : c ∈ spelling.text lexeme) : spelling.Uses lexeme c := by
  cases lexeme with
  | operator operator => exact .operator rfl (hlawful.mem_operatorChars hc)
  | space => exact .space rfl (List.mem_singleton.mp hc)
  | opening | closing =>
      obtain rfl := List.mem_singleton.mp hc
      exact .mark (by decide)
  | column name =>
      cases hwrapped : spelling.wrapped with
      | false => exact .word (name.isWord_of_mem c (by simpa [text, hwrapped] using hc))
      | true =>
          have hfixed : ∀ c ∈ ['c', 'o', 'l', '(', '\''] ++ ['\'', ')'],
              isWord c = true ∨ c ∈ marks ∨ c = '\'' := List.all_iff_forall_prop.mp (by decide)
          have huses : ∀ c ∈ ['c', 'o', 'l', '(', '\''] ++ ['\'', ')'],
              spelling.Uses (.column name) c := by
            intro c hc
            rcases hfixed c hc with hword | hmark | hquote
            · exact .word hword
            · exact .mark hmark
            · exact .quote hwrapped hquote
          rw [text, hwrapped, if_pos rfl, columnRef, List.mem_append, List.mem_append] at hc
          rcases hc with (hfront | hname) | hback
          · exact huses c (List.mem_append_left _ hfront)
          · exact .word (name.isWord_of_mem c hname)
          · exact huses c (List.mem_append_right _ hback)
  | integer value =>
      cases value with
      | ofNat number => exact .word (isWord_of_mem_toDigits hc)
      | negSucc number =>
          rcases List.mem_cons.mp hc with rfl | hdigit
          · exact .mark (by decide)
          · exact .word (isWord_of_mem_toDigits hdigit)
  | connective connective =>
      have hall : ∀ c ∈ (connectiveWords ++ connectiveMarks).flatten,
          isWord c = true ∨ c ∈ marks := List.all_iff_forall_prop.mp (by decide)
      simp only [text, List.mem_cons, List.mem_append, List.not_mem_nil, or_false] at hc
      rcases hc with hspace | hspelled | hspace
      · exact .space rfl hspace
      · have hcases := List.mem_append.mpr (hlawful.connective_cases connective)
        exact (hall c (List.mem_flatten.mpr ⟨_, hcases, hspelled⟩)).elim .word .mark
      · exact .space rfl hspace

/-- Spaces stand only in spaces and around connectives. -/
theorem Lawful.space_not_mem_text (hlawful : spelling.Lawful) {lexeme : Lexeme}
    (h : lexeme.isSpaced = false) : ' ' ∉ spelling.text lexeme := by
  intro hmem
  cases hlawful.uses_of_mem_text hmem with
  | operator hlexeme hc => exact absurd hc (by decide)
  | space hlexeme hc => exact Bool.false_ne_true (h ▸ hlexeme)
  | word hc => exact absurd hc (by decide)
  | mark hc => exact absurd hc (by decide)
  | quote hwrapped hc => exact absurd hc (by decide)

/-- The characters of operators stand only in operators. -/
theorem Lawful.not_mem_operatorChars_of_mem_text (hlawful : spelling.Lawful) {lexeme : Lexeme}
    (h : lexeme.isOperator = false) {c : Char} (hc : c ∈ spelling.text lexeme) :
    c ∉ operatorChars := by
  have hall : ∀ c ∈ operatorChars, c ∉ marks ∧ c ≠ ' ' ∧ c ≠ '\'' :=
    List.all_iff_forall_prop.mp (by decide)
  intro hoperator
  obtain ⟨hmark, hspace, hquote⟩ := hall c hoperator
  cases hlawful.uses_of_mem_text hc with
  | operator hlexeme hc => exact Bool.false_ne_true (h ▸ hlexeme)
  | space hlexeme hc => exact hspace hc
  | word hc => exact not_mem_operatorChars_of_isWord hc hoperator
  | mark hc => exact hmark hc
  | quote hwrapped hc => exact hquote hc

/-- A row of bare names has no quotes. -/
theorem Lawful.quote_not_mem_write (hlawful : spelling.Lawful) (hbare : spelling.wrapped = false)
    {c : Char} (hquote : c ∈ ['\'', '"']) (lexemes : List Lexeme) :
    c ∉ spelling.write lexemes := by
  have hall : ∀ c ∈ ['\'', '"'],
      c ∉ operatorChars ∧ c ≠ ' ' ∧ isWord c = false ∧ c ∉ marks :=
    List.all_iff_forall_prop.mp (by decide)
  obtain ⟨hoperator, hspace, hword, hmark⟩ := hall c hquote
  intro hmem
  obtain ⟨lexeme, -, htext⟩ := List.mem_flatMap.mp hmem
  cases hlawful.uses_of_mem_text htext with
  | operator hlexeme hc => exact hoperator hc
  | space hlexeme hc => exact hspace hc
  | word hc => exact ne_of_isWord hc hword rfl
  | mark hc => exact hmark hc
  | quote hwrapped hc => exact Bool.false_ne_true (hbare ▸ hwrapped)

/-- Only a column has a `c` in it. -/
theorem Lawful.not_mem_text (hlawful : spelling.Lawful) {lexeme : Lexeme}
    (h : ∀ name, lexeme ≠ .column name) : 'c' ∉ spelling.text lexeme := by
  have hdigits : ∀ number, 'c' ∉ Nat.toDigits 10 number := by
    intro number hmem
    exact absurd (toNat_of_mem_toDigits hmem).2 (by decide)
  cases lexeme with
  | column name => exact absurd rfl (h name)
  | space | opening | closing => simp [text]
  | operator operator =>
      intro hmem
      exact absurd (hlawful.mem_operatorChars hmem) (by decide)
  | connective connective =>
      have hall : ∀ spelled ∈ connectiveWords ++ connectiveMarks, 'c' ∉ spelled := by decide
      have hspelled := hall _ (List.mem_append.mpr (hlawful.connective_cases connective))
      simp [text, hspelled]
  | integer value =>
      cases value with
      | ofNat number => exact hdigits number
      | negSucc number => exact List.not_mem_cons_of_ne_of_not_mem (by decide) (hdigits _)

/-- No column is wrapped in a row of bare names. -/
theorem Lawful.contains_col_write (hlawful : spelling.Lawful) (hbare : spelling.wrapped = false)
    {lexemes : List Lexeme} (hlaid : Laid lexemes) :
    contains ['c', 'o', 'l', '('] (spelling.write lexemes) = false := by
  induction lexemes with
  | nil => rfl
  | cons lexeme rest ih =>
      obtain ⟨hoperand, -, hrest⟩ := hlaid
      rw [write_cons, ← ih hrest]
      apply contains_append
      intro tail hne htail
      by_cases hcolumn : ∃ name, lexeme = .column name
      · obtain ⟨name, rfl⟩ := hcolumn
        obtain ⟨hnext, hopens⟩ := hoperand rfl
        have hword : ∀ c ∈ tail, isWord c = true := by
          intro c hc
          have hmem := htail.subset hc
          rw [text, hbare, if_neg Bool.false_ne_true] at hmem
          exact name.isWord_of_mem c hmem
        have hcol : ∀ c ∈ ['c', 'o', 'l'], isWord c = true := List.all_eq_true.mp (by decide)
        have hstarts := isPrefixOf_word_append (c := '(') hcol hword (by decide)
          (hlawful.startsWord_write hnext)
        rw [Bool.eq_false_iff, Ne, ← List.singleton_append]
        exact fun h => hlawful.not_mem_head?_of_opensNext hopens (hstarts.mp h).2
      · rw [not_exists] at hcolumn
        exact isPrefixOf_append_of_not_mem (hlawful.not_mem_text hcolumn) hne htail _

/-- The names of a row of bare names are wrapped. -/
theorem Lawful.wrapColumns_write (hlawful : spelling.Lawful) (hbare : spelling.wrapped = false)
    {lexemes : List Lexeme} (hlaid : Laid lexemes) :
    wrapColumns (spelling.write lexemes) = spelling.wrap.write lexemes := by
  have hquote : ∀ c ∈ ['\'', '"'], [c].isPrefixOf (trim (spelling.write lexemes)) = false := by
    intro c hc
    apply isPrefixOf_singleton_eq_false
    exact fun hmem => hlawful.quote_not_mem_write hbare hc lexemes
      ((trim_isInfix _).subset (List.mem_of_mem_head? hmem))
  have hunwrapped : isWrapped (spelling.write lexemes) = false := by
    rw [isWrapped, hlawful.contains_col_write hbare hlaid, hquote '\'' (by decide),
      hquote '"' (by decide)]
    rfl
  rw [wrapColumns, hunwrapped, if_neg Bool.false_ne_true, hlawful.wrapWords_write hbare hlaid]

/-! ## Replacing connectives -/

/-- A text between two spaces. -/
def spaced (cs : List Char) : List Char :=
  ' ' :: (cs ++ [' '])

/-- A mark for one word; any other spelling of a connective is kept. -/
def respell (word mark spelled : List Char) : List Char :=
  if spelled = word then mark else spelled

/-- A spelling in which the connectives are spelled otherwise. -/
def mapConnectives (spelling : Spelling) (change : List Char → List Char) : Spelling :=
  { spelling with connective := fun connective => change (spelling.connective connective) }

theorem Lawful.mapConnectives_respell (hlawful : spelling.Lawful) (word : List Char)
    {mark : List Char} (hmark : mark ∈ connectiveMarks) :
    (spelling.mapConnectives (respell word mark)).Lawful := by
  refine ⟨hlawful.operators, fun connective => ?_⟩
  show (if _ then _ else _) ∈ _ ∨ (if _ then _ else _) ∈ _
  split
  · exact Or.inr hmark
  · exact hlawful.connective_cases connective

section ConnectiveWords

variable {word : List Char}

/-- The word of a connective does not stand where another word stands. -/
theorem isPrefixOf_other_word (hword : word ∈ connectiveWords) {other rest : List Char}
    (hother : ∀ c ∈ other, isWord c = true) (hrest : startsWord rest = false) (hne : word ≠ other) :
    (word ++ [' ']).isPrefixOf (other ++ rest) = false := by
  have hletters := (of_mem_connectiveWords word hword).1
  rw [Bool.eq_false_iff]
  exact fun h => hne ((isPrefixOf_word_append hletters hother (by decide) hrest).mp h).1

/-- The word of a connective does not stand where no word stands. -/
theorem isPrefixOf_no_word (hword : word ∈ connectiveWords) {rest : List Char}
    (hrest : startsWord rest = false) : (word ++ [' ']).isPrefixOf rest = false := by
  have hne : word ≠ [] := by
    rintro rfl
    exact absurd hword (by decide)
  exact isPrefixOf_other_word hword (by simp) hrest hne

/-- The word of a connective does not stand at the start of a row. -/
theorem Lawful.isPrefixOf_write (hlawful : spelling.Lawful) (hword : word ∈ connectiveWords)
    {lexemes : List Lexeme} (hlaid : Laid lexemes) :
    (word ++ [' ']).isPrefixOf (spelling.write lexemes) = false := by
  obtain ⟨-, hplain, hconnective⟩ := of_mem_connectiveWords word hword
  cases lexemes with
  | nil => exact isPrefixOf_no_word hword rfl
  | cons lexeme rest =>
      obtain ⟨hoperand, -, -⟩ := hlaid
      cases lexeme with
      | column name =>
          cases hwrapped : spelling.wrapped with
          | true =>
              have hcol : ∀ c ∈ ['c', 'o', 'l'], isWord c = true := List.all_eq_true.mp (by decide)
              have hne : word ≠ ['c', 'o', 'l'] := by
                rintro rfl
                exact absurd hconnective (by decide)
              have htext : spelling.text (.column name) ++ spelling.write rest =
                  ['c', 'o', 'l'] ++ ('(' :: '\'' :: (name.chars ++ ['\'', ')']) ++
                    spelling.write rest) := by
                simp [text, hwrapped, columnRef]
              rw [write_cons, htext]
              exact isPrefixOf_other_word hword hcol rfl hne
          | false =>
              have hne : word ≠ name.chars := by
                rintro rfl
                exact Bool.false_ne_true (name.unconnective ▸ hconnective)
              rw [write_cons, text, hwrapped, if_neg Bool.false_ne_true]
              exact isPrefixOf_other_word hword name.isWord_of_mem
                (hlawful.startsWord_write (hoperand rfl).1) hne
      | integer value =>
          cases value with
          | ofNat number =>
              have hne : word ≠ Nat.toDigits 10 number := by
                rintro rfl
                exact Bool.false_ne_true (startsPlain_toDigits number ▸ hplain)
              exact isPrefixOf_other_word hword (fun _ => isWord_of_mem_toDigits)
                (hlawful.startsWord_write (hoperand rfl).1) hne
          | negSucc number => exact isPrefixOf_no_word hword rfl
      | space | operator _ | connective _ | opening | closing =>
          exact isPrefixOf_no_word hword (hlawful.startsWord_write rfl)

/-- The occurrences of a connective's word between spaces are the connectives of the row. -/
theorem Lawful.replace_write (hlawful : spelling.Lawful) (hword : word ∈ connectiveWords)
    {mark : List Char} {lexemes : List Lexeme} (hlaid : Laid lexemes) :
    replace (spaced word) (spaced mark) (spelling.write lexemes) =
      (spelling.mapConnectives (respell word mark)).write lexemes := by
  -- A space is kept if no word of a connective follows it.
  have hspace : ∀ cs, (word ++ [' ']).isPrefixOf cs = false →
      replace (spaced word) (spaced mark) (' ' :: cs) =
        ' ' :: replace (spaced word) (spaced mark) cs := by
    intro cs hcs
    apply replace_cons
    simpa [spaced, List.isPrefixOf] using hcs
  have hkept : ∀ front rest, ' ' ∉ front →
      replace (spaced word) (spaced mark) (front ++ rest) =
        front ++ replace (spaced word) (spaced mark) rest :=
    fun front rest hfront => replace_append_of_not_mem hfront rest
  induction lexemes with
  | nil => rfl
  | cons lexeme rest ih =>
      obtain ⟨hoperand, hoperator, hrest⟩ := hlaid
      rw [write_cons, write_cons, ← ih hrest]
      cases lexeme with
      | space => exact hspace _ (hlawful.isPrefixOf_write hword hrest)
      | connective connective =>
          show replace (spaced word) (spaced mark)
              (spaced (spelling.connective connective) ++ spelling.write rest) =
            spaced (respell word mark (spelling.connective connective)) ++ _
          rw [respell]
          by_cases heq : spelling.connective connective = word
          · rw [if_pos heq, heq]
            exact replace_self_append (List.cons_ne_nil ' ' _) _
          · have hspelled : ' ' ∉ spelling.connective connective := by
              have hall : ∀ spelled ∈ connectiveWords ++ connectiveMarks, ' ' ∉ spelled := by decide
              exact hall _ (List.mem_append.mpr (hlawful.connective_cases connective))
            have hapart : (word ++ [' ']).isPrefixOf
                (spelling.connective connective ++ ' ' :: spelling.write rest) = false := by
              rcases hlawful.connective_cases connective with hletters | hmark
              · exact isPrefixOf_other_word hword (of_mem_connectiveWords _ hletters).1 rfl
                  (Ne.symm heq)
              · obtain ⟨c, tail, hcons, -⟩ := hlawful.exists_connective_eq_cons connective
                rw [hcons] at hmark ⊢
                exact isPrefixOf_no_word hword
                  (wordless_of_mem_connectiveMarks _ hmark c List.mem_cons_self)
            have hsplit : ∀ cs, spaced (spelling.connective connective) ++ cs =
                ' ' :: (spelling.connective connective ++ ' ' :: cs) := by simp [spaced]
            rw [if_neg heq, hsplit, hsplit, hspace _ hapart, hkept _ _ hspelled,
              hspace _ (hlawful.isPrefixOf_write hword hrest)]
      | column _ | integer _ | operator _ | opening | closing =>
          exact hkept _ _ (hlawful.space_not_mem_text rfl)

end ConnectiveWords

/-- Replaces words of connectives by marks, one pair after the other. -/
def replaceConnectives (pairs : List (List Char × List Char)) (cs : List Char) : List Char :=
  pairs.foldl (fun cs pair => replace (spaced pair.1) (spaced pair.2) cs) cs

/-- What the pairs make of one spelled connective. -/
def respelled (pairs : List (List Char × List Char)) (spelled : List Char) : List Char :=
  pairs.foldl (fun spelled pair => respell pair.1 pair.2 spelled) spelled

/-- Words of connectives with the marks that replace them. -/
def Replacing (pairs : List (List Char × List Char)) : Prop :=
  ∀ pair ∈ pairs, pair.1 ∈ connectiveWords ∧ pair.2 ∈ connectiveMarks

theorem Lawful.replaceConnectives_write {pairs : List (List Char × List Char)}
    (hpairs : Replacing pairs) (hlawful : spelling.Lawful) {lexemes : List Lexeme}
    (hlaid : Laid lexemes) :
    replaceConnectives pairs (spelling.write lexemes) =
      (spelling.mapConnectives (respelled pairs)).write lexemes := by
  induction pairs generalizing spelling with
  | nil => rfl
  | cons pair pairs ih =>
      obtain ⟨hword, hmark⟩ := hpairs pair List.mem_cons_self
      have hlater := ih (fun other hother => hpairs other (List.mem_cons_of_mem pair hother))
        (hlawful.mapConnectives_respell pair.1 hmark)
      rw [replaceConnectives, List.foldl_cons, hlawful.replace_write hword hlaid]
      exact hlater

/-! ## Replacing operators -/

/-- A spelling in which the operators are spelled otherwise. -/
def mapOperators (spelling : Spelling) (change : List Char → List Char) : Spelling :=
  { spelling with operator := fun operator => change (spelling.operator operator) }

/-- A pass that treats parts apart where no operator reaches over their border, and changes
nothing but operators, changes the operators of a row one by one. -/
theorem Lawful.pass_write_of_operators (hlawful : spelling.Lawful) {pass : List Char → List Char}
    (happend : ∀ front rest, (∀ c ∈ front.getLast?, c ∉ operatorChars) ∨
      (∀ c ∈ rest.head?, c ∉ operatorChars) → pass (front ++ rest) = pass front ++ pass rest)
    (hkept : ∀ cs, (∀ c ∈ cs, c ∉ operatorChars) → pass cs = cs)
    {lexemes : List Lexeme} (hlaid : Laid lexemes) :
    pass (spelling.write lexemes) = (spelling.mapOperators pass).write lexemes := by
  have hplain : ∀ lexeme rest, lexeme.isOperator = false →
      pass (spelling.text lexeme ++ rest) = spelling.text lexeme ++ pass rest := by
    intro lexeme rest hlexeme
    have hnone : ∀ c ∈ spelling.text lexeme, c ∉ operatorChars :=
      fun c hc => hlawful.not_mem_operatorChars_of_mem_text hlexeme hc
    rw [happend _ _ (Or.inl fun c hc => hnone c (List.mem_of_mem_getLast? hc)), hkept _ hnone]
  induction lexemes with
  | nil => exact hkept [] (by simp)
  | cons lexeme rest ih =>
      obtain ⟨-, hoperator, hrest⟩ := hlaid
      rw [write_cons, write_cons, ← ih hrest]
      cases lexeme with
      | operator operator =>
          exact happend _ _ (Or.inr fun c hc => hlawful.not_mem_operatorChars (hoperator rfl) hc)
      | space | column _ | integer _ | connective _ | opening | closing => exact hplain _ _ rfl

/-- Equals signs that stand alone are doubled operator by operator. -/
theorem Lawful.doubleEquals_write (hlawful : spelling.Lawful) {lexemes : List Lexeme}
    (hlaid : Laid lexemes) :
    doubleEquals (spelling.write lexemes) =
      (spelling.mapOperators doubleEquals).write lexemes := by
  have hjoins : ∀ prev, (∀ c ∈ prev, c ∉ operatorChars) → joinsEquals prev = false := by
    intro prev hprev
    cases prev with
    | none => rfl
    | some c => simpa [joinsEquals, operatorChars, and_assoc] using hprev c rfl
  refine hlawful.pass_write_of_operators (fun front rest hborder => ?_) (fun cs hcs => ?_) hlaid
  · exact doubleEquals_append (hborder.imp (hjoins _) fun hhead hmem => hhead _ hmem (by decide))
  · exact doubleEquals_eq_self fun hmem => hcs _ hmem (by decide)

/-- Inequality signs are replaced operator by operator. -/
theorem Lawful.replace_unequal_write (hlawful : spelling.Lawful) {lexemes : List Lexeme}
    (hlaid : Laid lexemes) :
    replace ['<', '>'] ['!', '='] (spelling.write lexemes) =
      (spelling.mapOperators (replace ['<', '>'] ['!', '='])).write lexemes := by
  refine hlawful.pass_write_of_operators (fun front rest hborder => ?_) (fun cs hcs => ?_) hlaid
  · exact replace_pair_append (hborder.symm.imp (fun hhead hmem => hhead _ hmem (by decide))
      fun hlast hmem => hlast _ hmem (by decide))
  · have hless : '<' ∉ cs := fun hmem => hcs _ hmem (by decide)
    have hkept : replace ['<', '>'] ['!', '='] (cs ++ []) = cs ++ [] :=
      replace_append_of_not_mem hless []
    rwa [List.append_nil] at hkept

/-- Equals signs are doubled operator by operator. -/
theorem Lawful.replaceChar_write (hlawful : spelling.Lawful) {lexemes : List Lexeme}
    (hlaid : Laid lexemes) :
    replaceChar '=' ['=', '='] (spelling.write lexemes) =
      (spelling.mapOperators (replaceChar '=' ['=', '='])).write lexemes := by
  refine hlawful.pass_write_of_operators (fun front rest _ => List.flatMap_append)
    (fun cs hcs => ?_) hlaid
  have hkept : ∀ c ∈ cs, (if c = '=' then ['=', '='] else [c]) = [c] := by
    intro c hc
    refine if_neg ?_
    rintro rfl
    exact hcs '=' hc (by decide)
  show cs.flatMap _ = cs
  rw [List.flatMap_congr hkept, List.flatMap_singleton']

/-! ## The two conversions -/

/-- The connectives replaced in a program. -/
def programPairs : List (List Char × List Char) :=
  [(['A', 'N', 'D'], ['&']), (['a', 'n', 'd'], ['&']), (['O', 'R'], ['|']), (['o', 'r'], ['|']),
    (['N', 'O', 'T'], ['~']), (['n', 'o', 't'], ['~'])]

/-- The connectives replaced in a model. -/
def modelPairs : List (List Char × List Char) :=
  [(['A', 'N', 'D'], ['&']), (['O', 'R'], ['|']), (['N', 'O', 'T'], ['~'])]

theorem replacing_programPairs : Replacing programPairs := by
  have hall : ∀ pair ∈ programPairs, pair.1 ∈ connectiveWords ∧ pair.2 ∈ connectiveMarks := by
    decide
  exact hall

theorem replacing_modelPairs : Replacing modelPairs := by
  have hall : ∀ pair ∈ modelPairs, pair.1 ∈ connectiveWords ∧ pair.2 ∈ connectiveMarks := by decide
  exact hall

theorem convertExpression_eq (cs : List Char) :
    convertExpression cs = replace ['<', '>'] ['!', '=']
      (doubleEquals (replaceConnectives programPairs (convertCalls (wrapColumns cs)))) := rfl

theorem convertCondition_eq (cs : List Char) :
    convertCondition cs = replace ['<', '>'] ['!', '=']
      (replaceChar '=' ['=', '='] (replaceConnectives modelPairs cs)) := rfl

theorem Lawful.mapConnectives_respelled {pairs : List (List Char × List Char)}
    (hpairs : Replacing pairs) (hlawful : spelling.Lawful) :
    (spelling.mapConnectives (respelled pairs)).Lawful := by
  induction pairs generalizing spelling with
  | nil => exact hlawful
  | cons pair pairs ih =>
      have hmark := (hpairs pair List.mem_cons_self).2
      exact ih (fun other hother => hpairs other (List.mem_cons_of_mem pair hother))
        (hlawful.mapConnectives_respell pair.1 hmark)

theorem Lawful.mapOperators (hlawful : spelling.Lawful) {change : List Char → List Char}
    (hchange : ∀ operator, operates (change (spelling.operator operator)) = true) :
    (spelling.mapOperators change).Lawful :=
  ⟨hchange, hlawful.connective_cases⟩

theorem lawful_script : script.Lawful :=
  ⟨fun operator => by cases operator <;> decide, fun connective => by cases connective <;> decide⟩

theorem lawful_model : model.Lawful :=
  ⟨fun operator => by cases operator <;> decide, fun connective => by cases connective <;> decide⟩

theorem lawful_program : program.Lawful :=
  ⟨fun operator => by cases operator <;> decide, fun connective => by cases connective <;> decide⟩

/-- Spellings that agree write the same. -/
theorem write_congr {other : Spelling} (hwrapped : spelling.wrapped = other.wrapped)
    (hoperator : ∀ operator, spelling.operator operator = other.operator operator)
    (hconnective : ∀ connective, spelling.connective connective = other.connective connective)
    (lexemes : List Lexeme) : spelling.write lexemes = other.write lexemes := by
  have hsame : spelling = other := Spelling.ext hwrapped (funext hoperator) (funext hconnective)
  rw [hsame]

/-- A row of bare names, converted for a program. -/
theorem Lawful.convertExpression_write (hlawful : spelling.Lawful)
    (hbare : spelling.wrapped = false)
    (hdoubled : ∀ operator, operates (doubleEquals (spelling.operator operator)) = true)
    {lexemes : List Lexeme} (hlaid : Laid lexemes) :
    convertExpression (spelling.write lexemes) =
      (((spelling.wrap.mapConnectives (respelled programPairs)).mapOperators
        doubleEquals).mapOperators (replace ['<', '>'] ['!', '='])).write lexemes := by
  have hconnectives := hlawful.wrap.mapConnectives_respelled replacing_programPairs
  have hoperators := hconnectives.mapOperators hdoubled
  rw [convertExpression_eq, hlawful.wrapColumns_write hbare hlaid, hlawful.convertCalls_write hlaid,
    hlawful.wrap.replaceConnectives_write replacing_programPairs hlaid,
    hconnectives.doubleEquals_write hlaid, hoperators.replace_unequal_write hlaid]

/-- A condition of a script becomes one of a program. -/
theorem convertExpression_script {lexemes : List Lexeme} (hlaid : Laid lexemes) :
    convertExpression (script.write lexemes) = program.write lexemes := by
  have hdoubled : ∀ operator, operates (doubleEquals (script.operator operator)) = true := by
    intro operator
    cases operator <;> decide
  rw [lawful_script.convertExpression_write rfl hdoubled hlaid]
  apply write_congr
  · rfl
  · intro operator
    cases operator <;> rfl
  · intro connective
    cases connective <;> rfl

/-- A condition of a script becomes one of a model. -/
theorem convertCondition_script {lexemes : List Lexeme} (hlaid : Laid lexemes) :
    convertCondition (script.write lexemes) = model.write lexemes := by
  have hdoubled : ∀ operator,
      operates (replaceChar '=' ['=', '='] (script.operator operator)) = true := by
    intro operator
    cases operator <;> decide
  have hconnectives := lawful_script.mapConnectives_respelled replacing_modelPairs
  have hoperators := hconnectives.mapOperators hdoubled
  rw [convertCondition_eq, lawful_script.replaceConnectives_write replacing_modelPairs hlaid,
    hconnectives.replaceChar_write hlaid, hoperators.replace_unequal_write hlaid]
  apply write_congr
  · rfl
  · intro operator
    cases operator <;> rfl
  · intro connective
    cases connective <;> rfl

/-- A condition of a model keeps its operators when its names are wrapped. -/
theorem convertExpression_model {lexemes : List Lexeme} (hlaid : Laid lexemes) :
    convertExpression (model.write lexemes) = model.wrap.write lexemes := by
  have hdoubled : ∀ operator, operates (doubleEquals (model.operator operator)) = true := by
    intro operator
    cases operator <;> decide
  rw [lawful_model.convertExpression_write rfl hdoubled hlaid]
  apply write_congr
  · rfl
  · intro operator
    cases operator <;> rfl
  · intro connective
    cases connective <;> rfl

end Spelling

/-! ## The row of a condition -/

theorem laid_spaces {rest : List Lexeme} (hrest : Laid rest) (count : Nat) :
    Laid (List.replicate count .space ++ rest) := by
  induction count with
  | zero => exact hrest
  | succ count ih => exact ⟨nofun, nofun, ih⟩

theorem opensNext_spaces (count : Nat) (rest : List Lexeme) :
    opensNext (List.replicate count .space ++ rest) = opensNext rest := by
  induction count with
  | zero => rfl
  | succ count ih => exact ih

theorem head?_any_spaces {p : Lexeme → Bool} (hspace : p .space = false) {rest : List Lexeme}
    (hrest : rest.head?.any p = false) (count : Nat) :
    (List.replicate count Lexeme.space ++ rest).head?.any p = false := by
  cases count with
  | zero => exact hrest
  | succ count => exact hspace

/-- What may stand after a condition. -/
structure Follows (rest : List Lexeme) : Prop where
  operand : rest.head?.any Lexeme.isOperand = false
  opens : opensNext rest = false
  laid : Laid rest

theorem follows_nil : Follows [] :=
  ⟨rfl, rfl, trivial⟩

theorem follows_closing {rest : List Lexeme} (hrest : Laid rest) : Follows (.closing :: rest) :=
  ⟨rfl, rfl, nofun, nofun, hrest⟩

theorem follows_connective {rest : List Lexeme} (hrest : Laid rest) (spacing : Spacing)
    (connective : Connective) : Follows (spacing.around (.connective connective) ++ rest) := by
  have hlaid : Laid (.connective connective :: (List.replicate spacing.after .space ++ rest)) :=
    ⟨nofun, nofun, laid_spaces hrest spacing.after⟩
  rw [Spacing.around, List.append_assoc, List.cons_append]
  exact ⟨head?_any_spaces rfl rfl _, opensNext_spaces _ _, laid_spaces hlaid _⟩

theorem Comparison.laid_append (comparison : Comparison) {rest : List Lexeme}
    (hrest : Follows rest) : Laid (comparison.lexemes ++ rest) := by
  have hvalue : Laid (.integer comparison.value :: rest) :=
    ⟨fun _ => ⟨hrest.operand, hrest.opens⟩, nofun, hrest.laid⟩
  have hoperator : Laid (.operator comparison.operator ::
      (List.replicate comparison.spacing.after .space ++ .integer comparison.value :: rest)) :=
    ⟨nofun, fun _ => head?_any_spaces rfl rfl _, laid_spaces hvalue _⟩
  have hrow : comparison.lexemes ++ rest = .column comparison.column ::
      (List.replicate comparison.spacing.before .space ++ .operator comparison.operator ::
        (List.replicate comparison.spacing.after .space ++ .integer comparison.value :: rest)) := by
    simp [Comparison.lexemes, Spacing.around]
  rw [hrow]
  exact ⟨fun _ => ⟨head?_any_spaces rfl rfl _, opensNext_spaces _ _⟩, nofun,
    laid_spaces hoperator _⟩

theorem Condition.laid_append (condition : Condition) {rest : List Lexeme} (hrest : Follows rest) :
    Laid (condition.lexemes ++ rest) := by
  induction condition generalizing rest with
  | compare comparison => exact comparison.laid_append hrest
  | group inner ih =>
      have hinner := ih (follows_closing hrest.laid)
      rw [lexemes, List.cons_append, List.append_assoc]
      exact ⟨nofun, nofun, hinner⟩
  | connect left connective spacing right ihLeft ihRight =>
      rw [lexemes, List.append_assoc, List.append_assoc]
      exact ihLeft (follows_connective (ihRight hrest) spacing connective)

/-- The lexemes of a condition do not collide. -/
theorem Condition.laid_lexemes (condition : Condition) : Laid condition.lexemes := by
  have hlaid := condition.laid_append follows_nil
  rwa [List.append_nil] at hlaid

/-- The operators of the row are those of the condition. -/
theorem Condition.mem_operators_iff {condition : Condition} {operator : Operator} :
    operator ∈ condition.operators ↔ .operator operator ∈ condition.lexemes := by
  induction condition with
  | compare comparison => simp [operators, lexemes, Comparison.lexemes, Spacing.around]
  | group inner ih => simp [operators, lexemes, ih]
  | connect left connective spacing right ihLeft ihRight =>
      simp [operators, lexemes, Spacing.around, ihLeft, ihRight]

/-! ## Where the two conversions agree -/

/-- Whether a lexeme is `<=` or `>=`. -/
def Lexeme.isBound : Lexeme → Bool
  | operator .atMost | operator .atLeast => true
  | _ => false

/-- Each `<=` and `>=` is one character longer by way of the model. -/
theorem Spelling.length_write_model (lexemes : List Lexeme) :
    (Spelling.model.wrap.write lexemes).length =
      (Spelling.program.write lexemes).length + lexemes.countP Lexeme.isBound := by
  have htext : ∀ lexeme, (Spelling.model.wrap.text lexeme).length =
      (Spelling.program.text lexeme).length + if lexeme.isBound then 1 else 0 := by
    intro lexeme
    cases lexeme with
    | operator operator => cases operator <;> rfl
    | space | column _ | integer _ | connective _ | opening | closing => rfl
  induction lexemes with
  | nil => rfl
  | cons lexeme rest ih =>
      rw [Spelling.write_cons, Spelling.write_cons, List.length_append, List.length_append, htext,
        ih, List.countP_cons]
      omega

/-- A condition is converted for a program as it stands, and by way of the model with every
equals sign doubled; so the two ways give one text exactly if the condition has no `<=` and
no `>=`. -/
theorem convertExpression_convertCondition_eq_iff (condition : Condition) :
    convertExpression condition.text = Spelling.program.write condition.lexemes ∧
      convertExpression (convertCondition condition.text) =
        Spelling.model.wrap.write condition.lexemes ∧
      (convertExpression (convertCondition condition.text) = convertExpression condition.text ↔
        ∀ operator ∈ condition.operators, operator ≠ .atMost ∧ operator ≠ .atLeast) := by
  have hdirect := Spelling.convertExpression_script condition.laid_lexemes
  have hmodel : convertExpression (convertCondition condition.text) =
      Spelling.model.wrap.write condition.lexemes := by
    rw [Condition.text, Spelling.convertCondition_script condition.laid_lexemes,
      Spelling.convertExpression_model condition.laid_lexemes]
  refine ⟨hdirect, hmodel, ?_⟩
  rw [hmodel, Condition.text, hdirect]
  constructor
  · intro hsame operator hoperator
    have hcount : condition.lexemes.countP Lexeme.isBound = 0 := by
      have hlength := Spelling.length_write_model condition.lexemes
      rw [hsame] at hlength
      omega
    have hbound := List.countP_eq_zero.mp hcount _ (Condition.mem_operators_iff.mp hoperator)
    constructor <;> rintro rfl <;> exact hbound rfl
  · intro hoperators
    apply List.flatMap_congr
    intro lexeme hlexeme
    cases lexeme with
    | operator operator =>
        obtain ⟨hatMost, hatLeast⟩ := hoperators operator (Condition.mem_operators_iff.mpr hlexeme)
        cases operator with
        | atMost => exact absurd rfl hatMost
        | atLeast => exact absurd rfl hatLeast
        | equal | unequal | less | greater => rfl
    | space | column _ | integer _ | connective _ | opening | closing => rfl

/-- The column `a`. -/
def columnA : ColumnName :=
  ⟨['a'], by decide, by decide, by decide⟩

/-- The condition `a <= 5`. -/
def atMostFive : Condition :=
  .compare ⟨columnA, .atMost, ⟨1, 1⟩, 5⟩

theorem convertExpression_convertCondition_atMostFive :
    atMostFive.text = "a <= 5".toList ∧
      convertExpression (convertCondition atMostFive.text) ≠
        convertExpression atMostFive.text := by
  refine ⟨by decide, fun hsame => ?_⟩
  have hoperators := (convertExpression_convertCondition_eq_iff atMostFive).2.2.mp hsame
  exact (hoperators .atMost List.mem_cons_self).1 rfl

end QlikMigration.Spark
