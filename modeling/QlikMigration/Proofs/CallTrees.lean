import QlikMigration.Proofs.CallShapes

/-!
# Nested calls

Expressions are built of columns, integers and calls of known functions with at
least one argument. Their conversion is one pass over the text in which every
call reaches to the nearest closing parenthesis. Since columns are wrapped
before, an argument that is a column or a call has a parenthesis of its own, and
the call around it ends there.

So a call is cut at the first parenthesis in its arguments: the *pieces* before
it are what the function is given, and the *tail* behind it is converted as if it
stood alone. `convertExpression_write` says that this is how every expression is
converted.
-/

namespace QlikMigration.Spark

open QlikMigration.Text QlikMigration.Script

/-! ## Expressions -/

/-- Whether a function has a rule of its own or is converted by name. -/
def isKnown (name : String) : Bool :=
  specialFunctions.contains name || (target? name).isSome

/-- The name of a known function, made of word characters. -/
structure FunctionName where
  chars : List Char
  word : chars.all isWord = true
  known : isKnown (String.ofList chars) = true

/-- An unsigned integer as it is written. -/
structure Numeral where
  chars : List Char
  ne_nil : chars ≠ []
  digits : chars.all Char.isDigit = true

theorem Numeral.isWord_of_mem (numeral : Numeral) : ∀ c ∈ numeral.chars, isWord c = true :=
  fun c hc => isWord_of_isDigit (List.all_eq_true.mp numeral.digits c hc)

theorem Numeral.not_startsPlain (numeral : Numeral) : startsPlain numeral.chars = false := by
  obtain ⟨c, rest, hcons⟩ := List.exists_cons_of_ne_nil numeral.ne_nil
  have hdigit := List.all_eq_true.mp numeral.digits c (by simp [hcons])
  rw [hcons, startsPlain_of_isDigit hdigit rest]

mutual
/-- An expression. -/
inductive Term
  | column (name : ColumnName)
  | integer (numeral : Numeral)
  | call (function : FunctionName) (args : Arguments)

/-- The arguments of a call, of which there is at least one. -/
inductive Arguments
  | one (term : Term)
  | more (term : Term) (rest : Arguments)
end

mutual
/-- An expression in a script, or with its columns wrapped. -/
def Term.write (wrapped : Bool) : Term → List Char
  | .column name => if wrapped then columnRef name.chars else name.chars
  | .integer numeral => numeral.chars
  | .call function args => function.chars ++ '(' :: (args.write wrapped ++ [')'])

/-- Arguments with a comma and a space between them. -/
def Arguments.write (wrapped : Bool) : Arguments → List Char
  | .one term => term.write wrapped
  | .more term rest => term.write wrapped ++ ',' :: ' ' :: rest.write wrapped
end

/-- The arguments as a list. -/
def Arguments.terms : Arguments → List Term
  | .one term => [term]
  | .more term rest => term :: rest.terms

/-- Whether an expression is an integer: it has no parenthesis once columns are wrapped. -/
def Term.isInteger : Term → Bool
  | .integer _ => true
  | .column _ | .call _ _ => false

/-! ## Cutting at the first parenthesis -/

/-- A function's name and parenthesis before the first of some pieces. -/
def openFirst (opening : List Char) : List (List Char) → List (List Char)
  | [] => [opening]
  | piece :: pieces => (opening ++ piece) :: pieces

mutual
/-- What stands between the commas before the first closing parenthesis. -/
def Term.pieces : Term → List (List Char)
  | .column name => [['c', 'o', 'l', '(', '\''] ++ name.chars ++ ['\'']]
  | .integer numeral => [numeral.chars]
  | .call function args => openFirst (function.chars ++ ['(']) args.pieces

/-- The pieces of arguments: those of integers, up to the first argument that has a
parenthesis. -/
def Arguments.pieces : Arguments → List (List Char)
  | .one term => term.pieces
  | .more term rest => if term.isInteger then term.pieces ++ rest.pieces else term.pieces
end

mutual
/-- What stands behind the first closing parenthesis. -/
def Term.remainder : Term → List Char
  | .column _ | .integer _ => []
  | .call _ args => args.remainder

/-- What stands behind the first closing parenthesis of arguments and of the call around
them. -/
def Arguments.remainder : Arguments → List Char
  | .one term => if term.isInteger then [] else term.remainder ++ [')']
  | .more term rest =>
    if term.isInteger then rest.remainder
    else term.remainder ++ ',' :: ' ' :: (rest.write true ++ [')'])
end

theorem listed_openFirst (opening : List Char) {pieces : List (List Char)} (hne : pieces ≠ []) :
    listed (openFirst opening pieces) = opening ++ listed pieces := by
  obtain ⟨piece, pieces, rfl⟩ := List.exists_cons_of_ne_nil hne
  by_cases hnil : pieces = []
  · rw [hnil, openFirst, listed_singleton, listed_singleton]
  · rw [openFirst, listed_cons _ hnil, listed_cons _ hnil, List.append_assoc]

mutual
theorem Term.pieces_ne_nil (term : Term) : term.pieces ≠ [] := by
  cases term with
  | column name => exact List.cons_ne_nil _ _
  | integer numeral => exact List.cons_ne_nil _ _
  | call function args =>
      obtain ⟨piece, pieces, hcons⟩ := List.exists_cons_of_ne_nil args.pieces_ne_nil
      rw [Term.pieces, hcons]
      exact List.cons_ne_nil _ _

theorem Arguments.pieces_ne_nil (args : Arguments) : args.pieces ≠ [] := by
  cases args with
  | one term => exact term.pieces_ne_nil
  | more term rest =>
      rw [Arguments.pieces]
      split
      · exact List.append_ne_nil_of_left_ne_nil term.pieces_ne_nil _
      · exact term.pieces_ne_nil
end

/-- Whether a character may stand in a piece. -/
def inPiece (c : Char) : Bool :=
  isWord c || c == '(' || c == '\''

mutual
theorem Term.inPiece_of_mem (term : Term) :
    ∀ piece ∈ term.pieces, ∀ c ∈ piece, inPiece c = true := by
  cases term with
  | column name =>
      intro piece hpiece c hc
      obtain rfl := List.mem_singleton.mp hpiece
      have hopening : ∀ d ∈ ['c', 'o', 'l', '(', '\''], inPiece d = true :=
        List.all_eq_true.mp (by decide)
      rw [List.mem_append, List.mem_append, List.mem_singleton] at hc
      rcases hc with (hc | hc) | rfl
      · exact hopening c hc
      · rw [inPiece, name.isWord_of_mem c hc, Bool.true_or, Bool.true_or]
      · decide
  | integer numeral =>
      intro piece hpiece c hc
      obtain rfl := List.mem_singleton.mp hpiece
      rw [inPiece, numeral.isWord_of_mem c hc, Bool.true_or, Bool.true_or]
  | call function args =>
      obtain ⟨first, rest, hcons⟩ := List.exists_cons_of_ne_nil args.pieces_ne_nil
      have hargs := args.inPiece_of_mem
      rw [hcons, List.forall_mem_cons] at hargs
      have hopening : ∀ c ∈ function.chars ++ ['('], inPiece c = true := by
        intro c hc
        rcases List.mem_append.mp hc with hc | hc
        · rw [inPiece, List.all_eq_true.mp function.word c hc, Bool.true_or, Bool.true_or]
        · rw [List.mem_singleton.mp hc]
          decide
      rw [Term.pieces, hcons, openFirst, List.forall_mem_cons]
      exact ⟨fun c hc => (List.mem_append.mp hc).elim (hopening c) (hargs.1 c), hargs.2⟩

theorem Arguments.inPiece_of_mem (args : Arguments) :
    ∀ piece ∈ args.pieces, ∀ c ∈ piece, inPiece c = true := by
  cases args with
  | one term => exact term.inPiece_of_mem
  | more term rest =>
      rw [Arguments.pieces]
      split
      · exact List.forall_mem_append.mpr ⟨term.inPiece_of_mem, rest.inPiece_of_mem⟩
      · exact term.inPiece_of_mem
end

mutual
/-- An expression is cut at its first closing parenthesis, if it has one. -/
theorem Term.write_eq (term : Term) : term.write true =
    listed term.pieces ++ if term.isInteger then [] else ')' :: term.remainder := by
  cases term with
  | column name =>
      rw [Term.write, Term.pieces, listed_singleton]
      simp [columnRef, Term.isInteger, Term.remainder]
  | integer numeral =>
      rw [Term.write, Term.pieces, listed_singleton]
      simp [Term.isInteger]
  | call function args =>
      have hargs := args.write_append_eq
      rw [Term.write, hargs, Term.pieces, listed_openFirst _ args.pieces_ne_nil]
      simp [Term.isInteger, Term.remainder]

/-- Arguments and the parenthesis that closes them are cut at the first one. -/
theorem Arguments.write_append_eq (args : Arguments) :
    args.write true ++ [')'] = listed args.pieces ++ ')' :: args.remainder := by
  cases args with
  | one term =>
      rw [Arguments.write, term.write_eq, Arguments.pieces, Arguments.remainder]
      cases term.isInteger <;> simp
  | more term rest =>
      have hrest := rest.write_append_eq
      rw [Arguments.write, term.write_eq, Arguments.pieces, Arguments.remainder]
      cases term.isInteger with
      | true =>
          rw [if_pos rfl, if_pos rfl, if_pos rfl, listed_append term.pieces_ne_nil
            rest.pieces_ne_nil]
          simp [hrest]
      | false => simp
end

/-! ## Names of functions -/

theorem not_isKnown_of_col {name : String} (hcol : ['c', 'o', 'l'] <:+ name.toList) :
    isKnown name = false := by
  have hspecial : ∀ other ∈ specialFunctions, ¬['c', 'o', 'l'] <:+ other.toList := by decide
  have htarget : target? name = none := by
    unfold target?
    split
    case h_50 => rfl
    all_goals exact absurd hcol (by decide)
  rw [isKnown, htarget, Option.isSome_none, Bool.or_false, List.contains_eq_mem,
    decide_eq_false_iff_not]
  exact fun hmem => hspecial name hmem hcol

namespace FunctionName

/-- The shape of the calls of a function. -/
def shape (function : FunctionName) : CallShape :=
  Spark.shape (String.ofList function.chars)

theorem isWord_of_mem (function : FunctionName) : ∀ c ∈ function.chars, isWord c = true :=
  List.all_eq_true.mp function.word

theorem chars_ne_nil (function : FunctionName) : function.chars ≠ [] := by
  intro hnil
  have hknown := function.known
  rw [hnil] at hknown
  exact absurd hknown (by decide)

theorem not_col_suffix (function : FunctionName) : ¬['c', 'o', 'l'] <:+ function.chars := by
  intro hcol
  have hunknown := @not_isKnown_of_col (String.ofList function.chars) (by simpa using hcol)
  rw [function.known] at hunknown
  cases hunknown

end FunctionName

/-! ## Wrapping columns -/

/-- Whether a text may follow an expression: it begins with no word character, and calls
nothing. -/
def EndsTerm (rest : List Char) : Prop :=
  startsWord rest = false ∧ ['('].isPrefixOf (skipBlanks rest) = false

theorem endsTerm_nil : EndsTerm [] := ⟨rfl, rfl⟩

theorem endsTerm_cons {c : Char} (hc : isWord c = false) (hblank : isBlank c = false)
    (hopen : c ≠ '(') (rest : List Char) : EndsTerm (c :: rest) := by
  refine ⟨hc, ?_⟩
  rw [skipBlanks, List.dropWhile_cons_of_neg (by simp [hblank]), isPrefixOf_singleton]
  simpa using hopen

theorem endsTerm_closing (rest : List Char) : EndsTerm (')' :: rest) :=
  endsTerm_cons (by decide) (by decide) (by decide) rest

theorem endsTerm_comma (rest : List Char) : EndsTerm (',' :: rest) :=
  endsTerm_cons (by decide) (by decide) (by decide) rest

theorem EndsTerm.not_mem_head? {rest : List Char} (h : EndsTerm rest) : '(' ∉ rest.head? := by
  intro hmem
  obtain ⟨after, rfl⟩ := List.head?_eq_some_iff.mp hmem
  have hstarts := h.2
  rw [skipBlanks, List.dropWhile_cons_of_neg (by decide), isPrefixOf_singleton] at hstarts
  cases hstarts

mutual
theorem Term.wrapWords_write_append (term : Term) {rest : List Char} (hrest : EndsTerm rest) :
    wrapWords [] (term.write false ++ rest) = term.write true ++ wrapWords [] rest := by
  cases term with
  | column name =>
      show wrapWords [] (name.chars ++ rest) = columnRef name.chars ++ _
      rw [wrapWords_append name.isWord_of_mem hrest.1, wrapWord, name.plain, hrest.2,
        name.unconnective]
      rfl
  | integer numeral =>
      show wrapWords [] (numeral.chars ++ rest) = numeral.chars ++ _
      rw [wrapWords_append numeral.isWord_of_mem hrest.1, wrapWord, numeral.not_startsPlain]
      rfl
  | call function args =>
      have hargs := args.wrapWords_write_append (endsTerm_closing rest)
      have hcalled : wrapWord function.chars ('(' :: (args.write false ++ ')' :: rest)) =
          function.chars := by
        rw [wrapWord, skipBlanks, List.dropWhile_cons_of_neg (by decide), isPrefixOf_singleton]
        simp
      have hopen : startsWord ('(' :: (args.write false ++ ')' :: rest)) = false := by
        show isWord '(' = false
        decide
      rw [Term.write, Term.write, List.append_assoc, List.cons_append, List.append_assoc,
        List.singleton_append, wrapWords_append function.isWord_of_mem hopen, hcalled,
        wrapWords_cons (by decide), hargs, wrapWords_cons (by decide)]
      simp

theorem Arguments.wrapWords_write_append (args : Arguments) {rest : List Char}
    (hrest : EndsTerm rest) :
    wrapWords [] (args.write false ++ rest) = args.write true ++ wrapWords [] rest := by
  cases args with
  | one term => exact term.wrapWords_write_append hrest
  | more term others =>
      have hterm := term.wrapWords_write_append
        (endsTerm_comma (' ' :: (others.write false ++ rest)))
      have hothers := others.wrapWords_write_append hrest
      rw [Arguments.write, Arguments.write, List.append_assoc, List.cons_append, List.cons_append,
        hterm, wrapWords_cons (by decide), wrapWords_cons (by decide), hothers]
      simp
end

theorem contains_col_word_append {word rest : List Char} (hword : ∀ c ∈ word, isWord c = true)
    (hrest : startsWord rest = false) (hcol : ['c', 'o', 'l'] <:+ word → '(' ∉ rest.head?) :
    contains ['c', 'o', 'l', '('] (word ++ rest) = contains ['c', 'o', 'l', '('] rest := by
  apply contains_append
  intro tail hne htail
  have hletters : ∀ c ∈ ['c', 'o', 'l'], isWord c = true := List.all_eq_true.mp (by decide)
  have hstarts := isPrefixOf_word_append (c := '(') hletters
    (fun c hc => hword c (htail.subset hc)) (by decide) hrest
  rw [Bool.eq_false_iff, Ne, ← List.singleton_append]
  rintro hstart
  obtain ⟨rfl, hopen⟩ := hstarts.mp hstart
  exact hcol htail hopen

theorem contains_col_append_of_not_mem {front : List Char} (hfront : 'c' ∉ front)
    (rest : List Char) :
    contains ['c', 'o', 'l', '('] (front ++ rest) = contains ['c', 'o', 'l', '('] rest :=
  contains_append fun _ hne htail => isPrefixOf_append_of_not_mem hfront hne htail rest

mutual
/-- No function and no column is called `col`, nor anything that ends so. -/
theorem Term.contains_col_write_append (term : Term) {rest : List Char} (hrest : EndsTerm rest) :
    contains ['c', 'o', 'l', '('] (term.write false ++ rest) =
      contains ['c', 'o', 'l', '('] rest := by
  cases term with
  | column name =>
      exact contains_col_word_append name.isWord_of_mem hrest.1 fun _ => hrest.not_mem_head?
  | integer numeral =>
      exact contains_col_word_append numeral.isWord_of_mem hrest.1 fun _ => hrest.not_mem_head?
  | call function args =>
      have hargs := args.contains_col_write_append (endsTerm_closing rest)
      have hopen : startsWord ('(' :: (args.write false ++ ')' :: rest)) = false := by
        show isWord '(' = false
        decide
      have hname := contains_col_word_append function.isWord_of_mem hopen fun hcol =>
        absurd hcol function.not_col_suffix
      have hbefore := @contains_col_append_of_not_mem ['('] (by decide)
        (args.write false ++ ')' :: rest)
      have hbehind := @contains_col_append_of_not_mem [')'] (by decide) rest
      rw [List.singleton_append] at hbefore hbehind
      rw [Term.write, List.append_assoc, List.cons_append, List.append_assoc,
        List.singleton_append, hname, hbefore, hargs, hbehind]

theorem Arguments.contains_col_write_append (args : Arguments) {rest : List Char}
    (hrest : EndsTerm rest) :
    contains ['c', 'o', 'l', '('] (args.write false ++ rest) =
      contains ['c', 'o', 'l', '('] rest := by
  cases args with
  | one term => exact term.contains_col_write_append hrest
  | more term others =>
      have hterm := term.contains_col_write_append
        (endsTerm_comma (' ' :: (others.write false ++ rest)))
      have hothers := others.contains_col_write_append hrest
      have hbetween := @contains_col_append_of_not_mem [',', ' '] (by decide)
        (others.write false ++ rest)
      rw [Arguments.write, List.append_assoc, List.cons_append, List.cons_append, hterm, ← hothers,
        ← hbetween]
      rfl
end

theorem Term.startsWord_write (term : Term) : startsWord (term.write false) = true := by
  cases term with
  | column name => exact startsWord_of_startsPlain name.plain
  | integer numeral =>
      have hword := startsWord_word_append numeral.ne_nil numeral.isWord_of_mem []
      rwa [List.append_nil] at hword
  | call function args =>
      exact startsWord_word_append function.chars_ne_nil function.isWord_of_mem _

/-- In an expression the columns are wrapped and nothing else. -/
theorem Term.wrapColumns_write (term : Term) :
    wrapColumns (term.write false) = term.write true := by
  have hcol := term.contains_col_write_append endsTerm_nil
  have hwords := term.wrapWords_write_append endsTerm_nil
  rw [List.append_nil] at hcol hwords
  rw [wrapColumns, isWrapped_of_startsWord term.startsWord_write, hcol, hwords]
  simp [contains, wrapWords, wrapWord, startsPlain]

/-! ## Converting calls -/

mutual
/-- What an expression becomes. A call is given its pieces, and its tail follows. -/
def Term.converted : Term → List Char
  | .column name => columnRef name.chars
  | .integer numeral => numeral.chars
  | .call function args => function.shape.write 0 args.pieces ++ args.tail

/-- What becomes of the text behind the first closing parenthesis. -/
def Term.tail : Term → List Char
  | .column _ | .integer _ => []
  | .call _ args => args.tail

/-- What arguments become where they are not cut. -/
def Arguments.converted : Arguments → List Char
  | .one term => term.converted
  | .more term rest => term.converted ++ ',' :: ' ' :: rest.converted

/-- What becomes of the text behind the first closing parenthesis of arguments and of the call
around them. -/
def Arguments.tail : Arguments → List Char
  | .one term => if term.isInteger then [] else term.tail ++ [')']
  | .more term rest =>
    if term.isInteger then rest.tail
    else term.tail ++ ',' :: ' ' :: (rest.converted ++ [')'])
end

theorem Arguments.not_mem_pieces {c : Char} (hc : inPiece c = false) (args : Arguments) :
    ∀ piece ∈ args.pieces, c ∉ piece := by
  intro piece hpiece hmem
  rw [args.inPiece_of_mem piece hpiece c hmem] at hc
  cases hc

theorem isBlank_of_inPiece {c : Char} (hc : inPiece c = true) : isBlank c = false := by
  rw [inPiece, Bool.or_eq_true, Bool.or_eq_true, beq_iff_eq, beq_iff_eq] at hc
  rcases hc with (hword | rfl) | rfl
  · exact isBlank_of_isWord hword
  · decide
  · decide

/-- The pieces of a call are what its function is given. -/
theorem convertCall_pieces (function : FunctionName) (args : Arguments) :
    convertCall function.chars (listed args.pieces) = function.shape.write 0 args.pieces :=
  convertCall_listed function.word args.pieces_ne_nil (args.not_mem_pieces (by decide))
    fun piece hpiece c hc => isBlank_of_inPiece (args.inPiece_of_mem piece hpiece c hc)

theorem not_mem_listed {c : Char} (hcomma : c ≠ ',') (hspace : c ≠ ' ') {pieces : List (List Char)}
    (hpieces : ∀ piece ∈ pieces, c ∉ piece) : c ∉ listed pieces := by
  induction pieces with
  | nil => exact List.not_mem_nil
  | cons piece pieces ih =>
      rw [List.forall_mem_cons] at hpieces
      by_cases hnil : pieces = []
      · rw [hnil, listed_singleton]
        exact hpieces.1
      · rw [listed_cons piece hnil]
        simp [hpieces.1, hcomma, hspace, ih hpieces.2]

mutual
theorem Term.convertCalls_write_append (term : Term) {rest : List Char} (hrest : EndsTerm rest) :
    convertCalls (term.write true ++ rest) = term.converted ++ convertCalls rest := by
  cases term with
  | column name => exact convertCalls_columnRef name.isWord_of_mem rest
  | integer numeral =>
      exact convertCalls_append numeral.isWord_of_mem hrest.1 hrest.not_mem_head?
  | call function args =>
      have hcall := convertCalls_call function.isWord_of_mem function.chars_ne_nil
        (not_mem_listed (by decide) (by decide) (args.not_mem_pieces (c := ')') (by decide)))
        (not_mem_listed (by decide) (by decide) (args.not_mem_pieces (c := '\n') (by decide)))
        (args.remainder ++ rest)
      have hbehind := args.convertCalls_remainder_append hrest
      rw [Term.write, args.write_append_eq, List.append_assoc, List.cons_append, List.append_assoc,
        List.cons_append, hcall, hbehind, convertCall_pieces, Term.converted, List.append_assoc]

theorem Term.convertCalls_remainder_append (term : Term) {rest : List Char}
    (hrest : EndsTerm rest) :
    convertCalls (term.remainder ++ rest) = term.tail ++ convertCalls rest := by
  cases term with
  | column name => rfl
  | integer numeral => rfl
  | call function args => exact args.convertCalls_remainder_append hrest

theorem Arguments.convertCalls_write_append (args : Arguments) {rest : List Char}
    (hrest : EndsTerm rest) :
    convertCalls (args.write true ++ rest) = args.converted ++ convertCalls rest := by
  cases args with
  | one term => exact term.convertCalls_write_append hrest
  | more term others =>
      have hterm := term.convertCalls_write_append
        (endsTerm_comma (' ' :: (others.write true ++ rest)))
      have hothers := others.convertCalls_write_append hrest
      rw [Arguments.write, Arguments.converted, List.append_assoc, List.cons_append,
        List.cons_append, hterm, convertCalls_cons (by decide), convertCalls_cons (by decide),
        hothers]
      simp

theorem Arguments.convertCalls_remainder_append (args : Arguments) {rest : List Char}
    (hrest : EndsTerm rest) :
    convertCalls (args.remainder ++ rest) = args.tail ++ convertCalls rest := by
  cases args with
  | one term =>
      have hterm := term.convertCalls_remainder_append (endsTerm_closing rest)
      rw [Arguments.remainder, Arguments.tail]
      cases term.isInteger with
      | true => rfl
      | false => simp [hterm, convertCalls_cons (show isWord ')' = false by decide)]
  | more term others =>
      rw [Arguments.remainder, Arguments.tail]
      have hothers := others.convertCalls_remainder_append hrest
      have hterm := term.convertCalls_remainder_append
        (endsTerm_comma (' ' :: (others.write true ++ ')' :: rest)))
      have hwritten := others.convertCalls_write_append (endsTerm_closing rest)
      cases term.isInteger with
      | true => exact hothers
      | false =>
          rw [if_neg Bool.false_ne_true, if_neg Bool.false_ne_true, List.append_assoc,
            List.cons_append, List.cons_append, List.append_assoc, List.singleton_append, hterm,
            convertCalls_cons (by decide), convertCalls_cons (by decide), hwritten,
            convertCalls_cons (by decide)]
          simp
end

/-! ## Connectives and operators -/

theorem isQuiet_of_inPiece {cs : List Char} (h : ∀ c ∈ cs, inPiece c = true) :
    isQuiet cs = true := by
  have habsent : ∀ {c : Char}, inPiece c = false → c ∉ cs := by
    intro c hc hmem
    rw [h c hmem] at hc
    cases hc
  exact isQuiet_of_not_mem (habsent (by decide)) (habsent (by decide)) (habsent (by decide))

theorem FunctionName.isQuiet_shape (function : FunctionName) : function.shape.isQuiet = true := by
  have hfits := fits_shape function.word
  rw [CallShape.fits, Bool.and_eq_true] at hfits
  exact hfits.1

theorem FunctionName.isQuiet_write (function : FunctionName) (args : Arguments) :
    isQuiet (function.shape.write 0 args.pieces) = true :=
  CallShape.isQuiet_write function.isQuiet_shape
    (fun piece hpiece => isQuiet_of_inPiece (args.inPiece_of_mem piece hpiece)) 0

mutual
/-- A converted expression has no connective or operator left to replace. -/
theorem Term.isQuiet_converted (term : Term) : isQuiet term.converted = true := by
  cases term with
  | column name =>
      have hpiece := isQuiet_of_inPiece ((Term.column name).inPiece_of_mem _ List.mem_cons_self)
      have hclosed := isQuiet_append hpiece (show isQuiet [')'] = true by decide)
      simpa [Term.converted, columnRef] using hclosed
  | integer numeral =>
      exact isQuiet_of_inPiece ((Term.integer numeral).inPiece_of_mem _ List.mem_cons_self)
  | call function args => exact isQuiet_append (function.isQuiet_write args) args.isQuiet_tail

theorem Term.isQuiet_tail (term : Term) : isQuiet term.tail = true := by
  cases term with
  | column name => rfl
  | integer numeral => rfl
  | call function args => exact args.isQuiet_tail

theorem Arguments.isQuiet_converted (args : Arguments) : isQuiet args.converted = true := by
  cases args with
  | one term => exact term.isQuiet_converted
  | more term rest =>
      have hrest := @isQuiet_append [',', ' '] _ (by decide) rest.isQuiet_converted
      exact isQuiet_append term.isQuiet_converted hrest

theorem Arguments.isQuiet_tail (args : Arguments) : isQuiet args.tail = true := by
  cases args with
  | one term =>
      rw [Arguments.tail]
      cases term.isInteger with
      | true => rfl
      | false => exact isQuiet_append term.isQuiet_tail (by decide)
  | more term rest =>
      rw [Arguments.tail]
      cases term.isInteger with
      | true => exact rest.isQuiet_tail
      | false =>
          have hrest := isQuiet_append rest.isQuiet_converted (show isQuiet [')'] = true by decide)
          exact isQuiet_append term.isQuiet_tail (@isQuiet_append [',', ' '] _ (by decide) hrest)
end

/-- Every expression is converted call by call, each of them given its pieces only. -/
theorem Term.convertExpression_write (term : Term) :
    convertExpression (term.write false) = term.converted := by
  have hcalls := term.convertCalls_write_append endsTerm_nil
  rw [List.append_nil] at hcalls
  have hnil : convertCalls [] = [] := rfl
  rw [convertExpression_eq_convertOperators, term.wrapColumns_write, hcalls, hnil, List.append_nil,
    convertOperators_of_isQuiet term.isQuiet_converted]

end QlikMigration.Spark
