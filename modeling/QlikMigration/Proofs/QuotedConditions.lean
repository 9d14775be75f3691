import QlikMigration.Proofs.FixedTexts

/-!
# Conditions with quoted texts

A condition may compare columns with texts between quotes. Its conversion does
not know about quotes, so it treats what stands between them like the rest. But
no pass looks for a quote, and so each quoted text is converted on its own, as
long as no call reaches beyond it.

`literalRun_of_convertExpression` says what becomes of the quoted texts. Where
nothing is called in them, they come out as they were exactly if each of them is
inert: it has no name, no connective between spaces, no equals sign that stands
alone and no inequality sign.
-/

namespace QlikMigration.Spark

open QlikMigration.Text QlikMigration.Script

/-! ## Conditions -/

/-- A comparison of a column with a text between quotes. -/
structure TextComparison where
  column : ColumnName
  operator : Operator
  spacing : Spacing
  literal : List Char
  unquoted : '\'' ∉ literal
  deriving DecidableEq

/-- Comparisons joined by connectives. -/
structure TextCondition where
  first : TextComparison
  more : List (Connective × Spacing × TextComparison)
  deriving DecidableEq

/-- What stands before the quoted text of a comparison. -/
def TextComparison.lead (comparison : TextComparison) : List Lexeme :=
  .column comparison.column :: comparison.spacing.around (.operator comparison.operator)

/-- Comparisons in some spelling, each after what joins it to the one before and with its
quoted text changed. -/
def writeParts (spelling : Spelling) (change : List Char → List Char)
    (parts : List (List Lexeme × TextComparison)) : List Char :=
  parts.flatMap fun part =>
    spelling.write (part.1 ++ part.2.lead) ++ '\'' :: (change part.2.literal ++ ['\''])

namespace TextCondition

variable (condition : TextCondition)

/-- The comparisons of a condition, each with what joins it to the one before. -/
def parts : List (List Lexeme × TextComparison) :=
  ([], condition.first) :: condition.more.map fun joined =>
    (joined.2.1.around (.connective joined.1), joined.2.2)

/-- A condition as it stands in a script. -/
def text : List Char :=
  writeParts Spelling.script id condition.parts

end TextCondition

theorem writeParts_cons (spelling : Spelling) (change : List Char → List Char)
    (part : List Lexeme × TextComparison) (parts : List (List Lexeme × TextComparison)) :
    writeParts spelling change (part :: parts) =
      spelling.write (part.1 ++ part.2.lead) ++
        '\'' :: (change part.2.literal ++ '\'' :: writeParts spelling change parts) := by
  simp [writeParts]

/-- A pass that treats the parts of a condition apart rewrites the whole of it. -/
theorem pass_writeParts {pass : List Char → List Char} (hnil : pass [] = [])
    {spelling respelling : Spelling} {change rechange : List Char → List Char}
    {parts : List (List Lexeme × TextComparison)}
    (hlead : ∀ part ∈ parts, ∀ rest,
      pass (spelling.write (part.1 ++ part.2.lead) ++ '\'' :: rest) =
        respelling.write (part.1 ++ part.2.lead) ++ '\'' :: pass rest)
    (hliteral : ∀ part ∈ parts, ∀ rest, pass (change part.2.literal ++ '\'' :: rest) =
      rechange part.2.literal ++ '\'' :: pass rest) :
    pass (writeParts spelling change parts) = writeParts respelling rechange parts := by
  induction parts with
  | nil => exact hnil
  | cons part parts ih =>
      rw [List.forall_mem_cons] at hlead hliteral
      rw [writeParts_cons, hlead.1, hliteral.1, ih hlead.2 hliteral.2, writeParts_cons]

/-! ## What the passes make of the lexemes before a quoted text -/

section Leads

variable {spelling : Spelling}

theorem write_append (spelling : Spelling) (front rest : List Lexeme) :
    spelling.write (front ++ rest) = spelling.write front ++ spelling.write rest :=
  List.flatMap_append

theorem write_around (spelling : Spelling) (spacing : Spacing) (lexeme : Lexeme) :
    spelling.write (spacing.around lexeme) = List.replicate spacing.before ' ' ++
      (spelling.text lexeme ++ List.replicate spacing.after ' ') := by
  have hspaces : ∀ count, spelling.write (List.replicate count .space) =
      List.replicate count ' ' := by
    intro count
    induction count with
    | zero => rfl
    | succ count ih => rw [List.replicate_succ, Spelling.write_cons, ih]; rfl
  rw [Spacing.around, write_append, Spelling.write_cons, hspaces, hspaces]

theorem wordless_replicate (count : Nat) : Wordless (List.replicate count ' ') := by
  intro c hc
  rw [List.eq_of_mem_replicate hc]
  decide

theorem wordless_append {front rest : List Char} (hfront : Wordless front)
    (hrest : Wordless rest) : Wordless (front ++ rest) :=
  fun c hc => (List.mem_append.mp hc).elim (hfront c) (hrest c)

theorem wordless_singleton {c : Char} (hc : isWord c = false) : Wordless [c] :=
  List.forall_mem_singleton.mpr hc

theorem convertCalls_wordless_append {front : List Char} (h : Wordless front) (rest : List Char) :
    convertCalls (front ++ rest) = front ++ convertCalls rest := by
  induction front with
  | nil => rfl
  | cons c front ih =>
      have hlater := ih fun d hd => h d (List.mem_cons_of_mem c hd)
      rw [List.cons_append, convertCalls_cons (h c List.mem_cons_self), hlater, List.cons_append]

/-- What joins two comparisons calls nothing. -/
theorem convertCalls_joint (hlawful : spelling.Lawful) (spacing : Spacing)
    (connective : Connective) (rest : List Char) :
    convertCalls (spelling.write (spacing.around (.connective connective)) ++ rest) =
      spelling.write (spacing.around (.connective connective)) ++ convertCalls rest := by
  have hspace : isWord ' ' = false := by decide
  have hspelled : ∀ tail, convertCalls (spelling.connective connective ++ ' ' :: tail) =
      spelling.connective connective ++ convertCalls (' ' :: tail) := by
    intro tail
    rcases hlawful.connective_cases connective with hletters | hmark
    · exact convertCalls_append (of_mem_connectiveWords _ hletters).1 hspace (by simp)
    · exact convertCalls_wordless_append (wordless_of_mem_connectiveMarks _ hmark) _
  have hlayout : ∀ tail, spelling.write (spacing.around (.connective connective)) ++ tail =
      (List.replicate spacing.before ' ' ++ [' ']) ++ (spelling.connective connective ++
        ' ' :: (List.replicate spacing.after ' ' ++ tail)) := by
    intro tail
    rw [write_around, Spelling.text]
    simp
  rw [hlayout, convertCalls_wordless_append, hspelled, convertCalls_cons hspace,
    convertCalls_wordless_append (wordless_replicate _), hlayout]
  exact wordless_append (wordless_replicate _) (wordless_singleton hspace)

theorem mem_write_operator (hlawful : spelling.Lawful) {spacing : Spacing} {operator : Operator}
    {c : Char} (hc : c ∈ spelling.write (spacing.around (.operator operator))) :
    c = ' ' ∨ c ∈ operatorChars := by
  rw [write_around, List.mem_append, List.mem_append] at hc
  rcases hc with hbefore | hspelled | hafter
  · exact .inl (List.eq_of_mem_replicate hbefore)
  · exact .inr (hlawful.mem_operatorChars hspelled)
  · exact .inl (List.eq_of_mem_replicate hafter)

theorem write_operator_ne_nil (hlawful : spelling.Lawful) (spacing : Spacing)
    (operator : Operator) : spelling.write (spacing.around (.operator operator)) ≠ [] := by
  rw [write_around]
  simpa [Spelling.text] using fun _ hnil => absurd hnil (hlawful.operator_ne_nil operator)

/-- What stands before a quoted text calls nothing but the wrapped name. -/
theorem convertCalls_lead (hlawful : spelling.Lawful) (comparison : TextComparison)
    (rest : List Char) :
    convertCalls (spelling.write comparison.lead ++ rest) =
      spelling.write comparison.lead ++ convertCalls rest := by
  have hchars : ∀ c ∈ ' ' :: operatorChars, isWord c = false ∧ c ≠ '(' :=
    List.all_iff_forall_prop.mp (by decide)
  have hoperator : ∀ c ∈ spelling.write (comparison.spacing.around (.operator comparison.operator)),
      isWord c = false ∧ c ≠ '(' :=
    fun c hc => hchars c (List.mem_cons.mpr (mem_write_operator hlawful hc))
  rw [TextComparison.lead, Spelling.write_cons, List.append_assoc, List.append_assoc,
    ← convertCalls_wordless_append fun c hc => (hoperator c hc).1]
  obtain ⟨c, tail, hcons⟩ := List.exists_cons_of_ne_nil
    (write_operator_ne_nil hlawful comparison.spacing comparison.operator)
  have hc := hoperator c (hcons ▸ List.mem_cons_self)
  rw [hcons, Spelling.text]
  split
  · exact convertCalls_columnRef comparison.column.isWord_of_mem _
  · exact convertCalls_append comparison.column.isWord_of_mem hc.1 (by simpa using hc.2)

theorem TextComparison.laid_lead (comparison : TextComparison) : Laid comparison.lead := by
  have hafter : Laid (List.replicate comparison.spacing.after .space) := by
    simpa using laid_spaces follows_nil.laid comparison.spacing.after
  have hnext : (List.replicate comparison.spacing.after Lexeme.space).head?.any
      Lexeme.isOperator = false := by
    simpa using @head?_any_spaces Lexeme.isOperator rfl [] rfl comparison.spacing.after
  have hoperator : Laid (.operator comparison.operator ::
      List.replicate comparison.spacing.after .space) :=
    ⟨nofun, fun _ => hnext, hafter⟩
  exact ⟨fun _ => ⟨head?_any_spaces rfl rfl _, opensNext_spaces _ _⟩, nofun,
    laid_spaces hoperator _⟩

theorem TextCondition.joint_of_mem_parts {condition : TextCondition}
    {part : List Lexeme × TextComparison} (h : part ∈ condition.parts) :
    part.1 = [] ∨ ∃ (spacing : Spacing) (connective : Connective),
      part.1 = spacing.around (.connective connective) := by
  rcases List.mem_cons.mp h with rfl | hmore
  · exact .inl rfl
  · obtain ⟨joined, -, rfl⟩ := List.mem_map.mp hmore
    exact .inr ⟨joined.2.1, joined.1, rfl⟩

variable {condition : TextCondition} {part : List Lexeme × TextComparison}

theorem laid_part (h : part ∈ condition.parts) : Laid (part.1 ++ part.2.lead) := by
  rcases TextCondition.joint_of_mem_parts h with hnil | ⟨spacing, connective, hjoint⟩
  · rw [hnil]
    exact part.2.laid_lead
  · rw [hjoint]
    exact (follows_connective part.2.laid_lead spacing connective).laid

theorem convertCalls_part (hlawful : spelling.Lawful) (h : part ∈ condition.parts)
    (rest : List Char) :
    convertCalls (spelling.write (part.1 ++ part.2.lead) ++ rest) =
      spelling.write (part.1 ++ part.2.lead) ++ convertCalls rest := by
  rcases TextCondition.joint_of_mem_parts h with hnil | ⟨spacing, connective, hjoint⟩
  · rw [hnil]
    exact convertCalls_lead hlawful part.2 rest
  · rw [hjoint, write_append, List.append_assoc, convertCalls_joint hlawful,
      convertCalls_lead hlawful, List.append_assoc]

/-- A spelling in which names are wrapped or not. -/
def Spelling.wrapping (spelling : Spelling) (wrapped : Bool) : Spelling :=
  { spelling with wrapped }

theorem Spelling.Lawful.wrapping (hlawful : spelling.Lawful) (wrapped : Bool) :
    (spelling.wrapping wrapped).Lawful :=
  ⟨hlawful.operators, hlawful.connective_cases⟩

theorem convertOperators_write (wrapped : Bool) {lexemes : List Lexeme} (hlaid : Laid lexemes) :
    convertOperators ((Spelling.script.wrapping wrapped).write lexemes) =
      (Spelling.program.wrapping wrapped).write lexemes := by
  have hlawful := Spelling.lawful_script.wrapping wrapped
  have hconnectives := hlawful.mapConnectives_respelled Spelling.replacing_programPairs
  have hdoubled : ∀ operator, operates (doubleEquals (Operator.written operator)) = true := by
    intro operator
    cases operator <;> decide
  rw [convertOperators, hlawful.replaceConnectives_write Spelling.replacing_programPairs hlaid,
    hconnectives.doubleEquals_write hlaid,
    (hconnectives.mapOperators hdoubled).replace_unequal_write hlaid]
  apply Spelling.write_congr
  · rfl
  · intro operator
    cases operator <;> rfl
  · intro connective
    cases connective <;> rfl

end Leads

/-! ## What becomes of a condition -/

/-- Whether the names of a condition are wrapped: they are not if a quoted text has the opening
of a wrapped name. -/
def TextCondition.wraps (condition : TextCondition) : Bool :=
  condition.parts.all fun part => !contains ['c', 'o', 'l', '('] part.2.literal

/-- A quoted text after names are wrapped. -/
def wrapLiteral (wraps : Bool) (literal : List Char) : List Char :=
  if wraps then wrapWords [] literal else literal

/-- What a quoted text is rewritten to. -/
def rewriteLiteral (wraps : Bool) (literal : List Char) : List Char :=
  convertOperators (convertCalls (wrapLiteral wraps literal))

section Conversion

variable (condition : TextCondition)

theorem contains_col_writeParts {parts : List (List Lexeme × TextComparison)}
    (hlaid : ∀ part ∈ parts, Laid (part.1 ++ part.2.lead)) :
    contains ['c', 'o', 'l', '('] (writeParts Spelling.script id parts) =
      parts.any fun part => contains ['c', 'o', 'l', '('] part.2.literal := by
  have hquote : '\'' ∉ ['c', 'o', 'l', '('] := by decide
  induction parts with
  | nil => rfl
  | cons part parts ih =>
      rw [List.forall_mem_cons] at hlaid
      rw [writeParts_cons, contains_append_cons (List.cons_ne_nil _ _) hquote,
        contains_append_cons (List.cons_ne_nil _ _) hquote, ih hlaid.2,
        Spelling.lawful_script.contains_col_write rfl hlaid.1, List.any_cons]
      rfl

theorem isWrapped_text : isWrapped condition.text = !condition.wraps := by
  have hplain : startsPlain condition.text = true := by
    obtain ⟨c, rest, hchars⟩ := condition.first.column.exists_cons
    have hstart := condition.first.column.plain
    have hname : Spelling.script.text (.column condition.first.column) = c :: rest := hchars
    rw [hchars] at hstart
    rw [TextCondition.text, TextCondition.parts, writeParts_cons, List.nil_append,
      TextComparison.lead, Spelling.write_cons, hname]
    exact hstart
  rw [isWrapped_of_startsWord (startsWord_of_startsPlain hplain), TextCondition.text,
    contains_col_writeParts fun part hpart => laid_part hpart, TextCondition.wraps,
    List.not_all_eq_any_not]
  simp

theorem wrapColumns_text : wrapColumns condition.text =
    writeParts (Spelling.script.wrapping condition.wraps) (wrapLiteral condition.wraps)
      condition.parts := by
  rw [wrapColumns, isWrapped_text]
  cases hwraps : condition.wraps with
  | false => rfl
  | true =>
      refine pass_writeParts rfl ?_ ?_
      · intro part hpart rest
        rw [wrapWords_append_quote, Spelling.lawful_script.wrapWords_write rfl (laid_part hpart)]
        rfl
      · intro part _ rest
        exact wrapWords_append_quote part.2.literal rest

/-- A condition is converted part by part, if calls are. -/
theorem convertExpression_text {rechange : List Char → List Char}
    (hliteral : ∀ part ∈ condition.parts, ∀ rest,
      convertCalls (wrapLiteral condition.wraps part.2.literal ++ '\'' :: rest) =
        rechange part.2.literal ++ '\'' :: convertCalls rest) :
    convertExpression condition.text =
      writeParts (Spelling.program.wrapping condition.wraps)
        (fun literal => convertOperators (rechange literal)) condition.parts := by
  have hquote : isWord '\'' = false := by decide
  have hlawful := Spelling.lawful_script.wrapping condition.wraps
  have hcalls : convertCalls (writeParts (Spelling.script.wrapping condition.wraps)
      (wrapLiteral condition.wraps) condition.parts) =
        writeParts (Spelling.script.wrapping condition.wraps) rechange condition.parts := by
    refine pass_writeParts rfl (fun part hpart rest => ?_) hliteral
    rw [convertCalls_part hlawful hpart, convertCalls_cons hquote]
  rw [convertExpression_eq_convertOperators, wrapColumns_text, hcalls]
  refine pass_writeParts rfl (fun part hpart rest => ?_) fun part _ rest => ?_
  · rw [convertOperators_append_cons (by decide), convertOperators_write _ (laid_part hpart)]
  · exact convertOperators_append_cons (by decide) _ rest

/-- Where calls do not reach beyond the quoted texts, each of these is rewritten on its own. -/
theorem convertExpression_text_of_closesCalls
    (h : ∀ part ∈ condition.parts, ClosesCalls (wrapLiteral condition.wraps part.2.literal)) :
    convertExpression condition.text =
      writeParts (Spelling.program.wrapping condition.wraps) (rewriteLiteral condition.wraps)
        condition.parts :=
  convertExpression_text condition fun part hpart rest => (h part hpart).convertCalls_append rest

theorem wraps_of_callless (h : ∀ part ∈ condition.parts, Callless part.2.literal) :
    condition.wraps = true := by
  rw [TextCondition.wraps, List.all_eq_true]
  intro part hpart
  rw [(h part hpart).contains_col]
  rfl

/-- Where nothing is called, names are wrapped in quoted texts and operators replaced. -/
theorem convertExpression_text_of_callless
    (h : ∀ part ∈ condition.parts, Callless part.2.literal) :
    convertExpression condition.text = writeParts Spelling.program
      (fun literal => convertOperators (wrapWords [] literal)) condition.parts := by
  have hwraps := wraps_of_callless condition h
  have hquote : isWord '\'' = false := by decide
  have hliteral : ∀ part ∈ condition.parts, ∀ rest,
      convertCalls (wrapLiteral condition.wraps part.2.literal ++ '\'' :: rest) =
        wrapWords [] part.2.literal ++ '\'' :: convertCalls rest := by
    intro part hpart rest
    have hcalls := (h part hpart).convertCalls_wrapWords (show startsWord ('\'' :: rest) = false
      from hquote) (by simp)
    rw [hwraps, wrapLiteral, if_pos rfl, hcalls, convertCalls_cons hquote]
  have hconverted := convertExpression_text condition hliteral
  rw [hwraps] at hconverted
  exact hconverted

end Conversion

/-! ## Quoted texts of a program -/

/-- Every second item of a list, from the second on. -/
def everySecond {α : Type} : List α → List α
  | _ :: item :: rest => item :: everySecond rest
  | _ => []

/-- The texts between quotes, from the left. -/
def quotedTexts (cs : List Char) : List (List Char) :=
  everySecond (List.splitOn '\'' cs)

theorem quotedTexts_append {front quoted : List Char} (hfront : '\'' ∉ front)
    (hquoted : '\'' ∉ quoted) (rest : List Char) :
    quotedTexts (front ++ '\'' :: (quoted ++ '\'' :: rest)) = quoted :: quotedTexts rest := by
  rw [quotedTexts, List.splitOn_append_cons_self_of_not_mem hfront,
    List.splitOn_append_cons_self_of_not_mem hquoted]
  rfl

/-- The texts that a program is to quote for comparisons: each name and then its text. -/
def quotations (parts : List (List Lexeme × TextComparison)) : List (List Char) :=
  parts.flatMap fun part => [part.2.column.chars, part.2.literal]

/-- The first name that is wrapped in a text ends what was quoted. -/
theorem exists_append_of_wrapWords_ne {literal : List Char} (hquote : '\'' ∉ literal)
    (hne : wrapWords [] literal ≠ literal) : ∃ front rest, '\'' ∉ front ++ ['l', '('] ∧
      convertOperators (wrapWords [] literal) = front ++ ['l', '('] ++ '\'' :: rest := by
  obtain ⟨front, word, rest, hstanding, -, hwrapped⟩ :=
    (wrapWords_eq_self_or literal).resolve_left hne
  have hopening : convertOperators ['('] = ['('] := by decide
  have hcut : wrapWords [] literal = (front ++ ['c', 'o']) ++
      'l' :: (['('] ++ '\'' :: (word ++ '\'' :: ')' :: wrapWords [] rest)) := by
    rw [hwrapped, columnRef]
    simp
  have hfront : '\'' ∉ front ++ ['c', 'o'] := by
    rw [hstanding.cut] at hquote
    simp only [List.mem_append, not_or] at hquote ⊢
    exact ⟨hquote.1, by decide⟩
  refine ⟨convertOperators (front ++ ['c', 'o']),
    convertOperators (word ++ '\'' :: ')' :: wrapWords [] rest), ?_, ?_⟩
  · rw [List.mem_append, not_or]
    exact ⟨quote_not_mem_convertOperators hfront, by decide⟩
  · rw [hcut, convertOperators_append_cons (by decide) (front ++ ['c', 'o']),
      convertOperators_append_cons (by decide) ['('], hopening]
    simp

section Reading

variable {condition : TextCondition} {part : List Lexeme × TextComparison}

/-- Before a quoted text, a program quotes the name. -/
theorem quotedTexts_write_append (h : part ∈ condition.parts) {quoted : List Char}
    (hquoted : '\'' ∉ quoted) (rest : List Char) :
    quotedTexts (Spelling.program.write (part.1 ++ part.2.lead) ++
        '\'' :: (quoted ++ '\'' :: rest)) =
      part.2.column.chars :: quoted :: quotedTexts rest := by
  have hjoint : '\'' ∉ Spelling.program.write part.1 ++ ['c', 'o', 'l', '('] := by
    have hsymbols : ∀ connective : Connective, '\'' ∉ connective.symbol := by
      intro connective
      cases connective <;> decide
    rcases TextCondition.joint_of_mem_parts h with hnil | ⟨spacing, connective, hjoint⟩
    · rw [hnil]
      decide
    · rw [hjoint, write_around]
      simp [Spelling.text, Spelling.program, List.mem_replicate, hsymbols]
  have hoperator : '\'' ∉ ')' ::
      Spelling.program.write (part.2.spacing.around (.operator part.2.operator)) := by
    rw [List.mem_cons, not_or]
    refine ⟨by decide, fun hmem => ?_⟩
    exact absurd (mem_write_operator Spelling.lawful_program hmem) (by decide)
  have hname : '\'' ∉ part.2.column.chars :=
    fun hmem => absurd (part.2.column.isWord_of_mem _ hmem) (by decide)
  have hlayout : Spelling.program.write (part.1 ++ part.2.lead) ++
      '\'' :: (quoted ++ '\'' :: rest) =
        (Spelling.program.write part.1 ++ ['c', 'o', 'l', '(']) ++ '\'' :: (part.2.column.chars ++
          '\'' :: ((')' :: Spelling.program.write
            (part.2.spacing.around (.operator part.2.operator))) ++
              '\'' :: (quoted ++ '\'' :: rest))) := by
    have hcolumn : Spelling.program.text (.column part.2.column) =
        columnRef part.2.column.chars := rfl
    rw [write_append, TextComparison.lead, Spelling.write_cons, hcolumn, columnRef]
    simp
  rw [hlayout, quotedTexts_append hjoint hname, quotedTexts_append hoperator hquoted]

theorem quotedTexts_writeParts_iff {parts : List (List Lexeme × TextComparison)}
    (hparts : ∀ part ∈ parts, part ∈ condition.parts)
    (hcallless : ∀ part ∈ parts, Callless part.2.literal) :
    quotedTexts (writeParts Spelling.program
        (fun literal => convertOperators (wrapWords [] literal)) parts) = quotations parts ↔
      ∀ part ∈ parts, convertOperators (wrapWords [] part.2.literal) = part.2.literal := by
  induction parts with
  | nil => exact ⟨fun _ => nofun, fun _ => rfl⟩
  | cons part parts ih =>
      rw [List.forall_mem_cons] at hparts hcallless
      have hlater := ih hparts.2 hcallless.2
      have hquotations : quotations (part :: parts) =
          part.2.column.chars :: part.2.literal :: quotations parts := rfl
      rw [writeParts_cons, List.forall_mem_cons, hquotations, ← hlater]
      by_cases hwrapped : wrapWords [] part.2.literal = part.2.literal
      · have hquoted := quote_not_mem_convertOperators part.2.unquoted
        rw [hwrapped, quotedTexts_write_append hparts.1 hquoted, List.cons_inj_right,
          List.cons_eq_cons]
      · -- A wrapped name opens a parenthesis right before the next quote.
        obtain ⟨front, rest, hfront, hconverted⟩ :=
          exists_append_of_wrapWords_ne part.2.unquoted hwrapped
        rw [hconverted, List.append_assoc, List.cons_append,
          quotedTexts_write_append hparts.1 hfront, List.cons_inj_right, List.cons_eq_cons]
        constructor
        · rintro ⟨hliteral, -⟩
          have hletter := hcallless.1 front 'l' [] (by rw [← hliteral])
          exact absurd hletter (by decide)
        · rintro ⟨hliteral, -⟩
          exact absurd part.2.unquoted (by rw [← hliteral]; simp)

end Reading

/-! ## Inert texts -/

/-- A text that a conversion finds nothing in. -/
structure Inert (cs : List Char) : Prop where
  /-- Every word in it that begins with a letter or an underscore is a connective or stands
  before a parenthesis. -/
  names : ∀ front word rest, Standing cs front word rest → isName word rest = false
  /-- No connective stands between spaces. -/
  connectives : ∀ word ∈ connectiveWords, contains (Spelling.spaced word) cs = false
  /-- No equals sign stands alone. -/
  equals : EqualsJoined cs
  /-- There is no inequality sign. -/
  unequals : contains ['<', '>'] cs = false

theorem convertOperators_wrapWords_eq_self_iff {literal : List Char} (hquote : '\'' ∉ literal) :
    convertOperators (wrapWords [] literal) = literal ↔ Inert literal := by
  constructor
  · intro hsame
    have hwrapped : wrapWords [] literal = literal := by
      by_contra hne
      obtain ⟨front, rest, -, hconverted⟩ := exists_append_of_wrapWords_ne hquote hne
      rw [hsame] at hconverted
      exact hquote (by rw [hconverted]; simp)
    rw [hwrapped, convertOperators_eq_self_iff] at hsame
    exact ⟨(wrapWords_eq_self_iff hquote).mp hwrapped, hsame.1, hsame.2.1, hsame.2.2⟩
  · intro hinert
    rw [(wrapWords_eq_self_iff hquote).mpr hinert.names, convertOperators_eq_self_iff]
    exact ⟨hinert.connectives, hinert.equals, hinert.unequals⟩

/-- What becomes of the quoted texts of a condition. -/
structure LiteralRun (condition : TextCondition) (output : List Char) : Prop where
  /-- Where every call in a quoted text is closed in it, the condition is written for a program
  with each quoted text rewritten on its own. -/
  rewritten : (∀ part ∈ condition.parts,
      ClosesCalls (wrapLiteral condition.wraps part.2.literal)) →
    output = writeParts (Spelling.program.wrapping condition.wraps)
      (rewriteLiteral condition.wraps) condition.parts
  /-- Where nothing is called in quoted texts, a program quotes the names and the texts in
  their order and nothing else exactly if all texts are inert. -/
  kept_iff : (∀ part ∈ condition.parts, Callless part.2.literal) →
    (quotedTexts output = quotations condition.parts ↔
      ∀ part ∈ condition.parts, Inert part.2.literal)
  /-- Then they are kept in the condition as it is written for a program. -/
  kept : (∀ part ∈ condition.parts, Callless part.2.literal ∧ Inert part.2.literal) →
    output = writeParts Spelling.program id condition.parts

/-- A conversion does not know about quotes: it keeps the quoted texts of a condition exactly
if it finds nothing in them. -/
theorem literalRun_of_convertExpression (condition : TextCondition) :
    LiteralRun condition (convertExpression condition.text) := by
  refine ⟨convertExpression_text_of_closesCalls condition, ?_, ?_⟩
  · intro hcallless
    rw [convertExpression_text_of_callless condition hcallless,
      quotedTexts_writeParts_iff (fun part hpart => hpart) hcallless]
    exact forall₂_congr fun part _ => convertOperators_wrapWords_eq_self_iff part.2.unquoted
  · intro hkept
    rw [convertExpression_text_of_callless condition fun part hpart => (hkept part hpart).1]
    apply List.flatMap_congr
    intro part hpart
    have hsame := (convertOperators_wrapWords_eq_self_iff part.2.unquoted).mpr (hkept part hpart).2
    simp only [hsame, id]

/-- The column `region`. -/
def regionColumn : ColumnName :=
  ⟨['r', 'e', 'g', 'i', 'o', 'n'], by decide, by decide, by decide⟩

/-- The condition `region = 'North'`. -/
def regionIsNorth : TextCondition :=
  ⟨⟨regionColumn, .equal, ⟨1, 1⟩, ['N', 'o', 'r', 't', 'h'], by decide⟩, []⟩

/-- The text is wrapped like a name, and the program quotes something else. -/
theorem literalRun_of_regionIsNorth :
    regionIsNorth.text = "region = 'North'".toList ∧
      convertExpression regionIsNorth.text = "col('region') == 'col('North')'".toList ∧
      quotedTexts (convertExpression regionIsNorth.text) ≠ quotations regionIsNorth.parts := by
  refine ⟨by decide, by decide, ?_⟩
  have hcallless : ∀ part ∈ regionIsNorth.parts, Callless part.2.literal := by
    intro part hpart front c rest hcut
    obtain rfl := List.mem_singleton.mp hpart
    have hopen : '(' ∈ ['N', 'o', 'r', 't', 'h'] := by
      rw [show ['N', 'o', 'r', 't', 'h'] = front ++ c :: '(' :: rest from hcut]
      simp
    exact absurd hopen (by decide)
  have hstanding : Standing ['N', 'o', 'r', 't', 'h'] [] ['N', 'o', 'r', 't', 'h'] [] :=
    ⟨rfl, nofun, List.all_eq_true.mp (by decide), rfl⟩
  intro hkept
  have hinert := ((literalRun_of_convertExpression regionIsNorth).kept_iff hcallless).mp hkept _
    List.mem_cons_self
  exact absurd (hinert.names _ _ _ hstanding) (by decide)

end QlikMigration.Spark
