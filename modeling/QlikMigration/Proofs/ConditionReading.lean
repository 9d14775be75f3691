import QlikMigration.Proofs.Conditions

/-!
# Conditions read back

In a program `&` binds tighter than `|`, both bind tighter than the comparison
operators, and comparisons that touch form one chain. In a script it is the
other way round: comparisons bind tightest, then `AND`, then `OR`. This module
reads a condition of a program with the precedence of the program and compares
the tree with the one that the script means.

A converted condition has the parentheses that the script has and no others. So
it reads as it is meant exactly if each comparison beside a connective stands
in parentheses of its own. Without parentheses only a single comparison keeps
its meaning; `a = 1 AND b = 2` becomes a chain around `1 & col('b')`.
-/

namespace QlikMigration.Spark

open QlikMigration.Text QlikMigration.Script

/-! ## Tokens of a program -/

/-- What a condition of a program is made of. -/
inductive Token
  | column (name : List Char)
  | integer (value : Int)
  | operator (operator : Operator)
  | connective (connective : Connective)
  | opening
  | closing
  deriving DecidableEq

/-- A column at the start of a text, with its length. -/
def column? (cs : List Char) : Option (Token × Nat) :=
  match ['c', 'o', 'l', '(', '\''].isPrefixOf? cs with
  | some rest =>
    if ['\'', ')'].isPrefixOf (afterWordRun rest) then
      some (.column (wordRun rest), (wordRun rest).length + 7)
    else none
  | none => none

/-- A number at the start of a text. -/
def digits? (cs : List Char) : Option Nat :=
  if wordRun cs ≠ [] ∧ (wordRun cs).all Char.isDigit then
    some (Nat.ofDigitChars 10 (wordRun cs) 0)
  else none

/-- An integer at the start of a text, with its length. -/
def integer? (cs : List Char) : Option (Token × Nat) :=
  if ['-'].isPrefixOf cs then
    (digits? cs.tail).map fun value => (.integer (-value), (wordRun cs.tail).length + 1)
  else (digits? cs).map fun value => (.integer value, (wordRun cs).length)

/-- The tokens with fixed texts, those of two characters first. -/
def fixedTokens : List (List Char × Token) :=
  [Operator.equal, .unequal, .atMost, .atLeast, .less, .greater].map
      (fun operator => (operator.symbol, .operator operator)) ++
    [Connective.both, .either].map
      (fun connective => (connective.symbol, .connective connective)) ++
    [(['('], .opening), ([')'], .closing)]

/-- The token at the start of a text, with its length. -/
def token? (cs : List Char) : Option (Token × Nat) :=
  (column? cs).or ((integer? cs).or
    ((fixedTokens.find? fun fixed => fixed.1.isPrefixOf cs).map
      fun fixed => (fixed.2, fixed.1.length)))

/-- The tokens of a text after `skip` characters, spaces apart. -/
def tokensFrom : Nat → List Char → Option (List Token)
  | _, [] => some []
  | skip + 1, _ :: rest => tokensFrom skip rest
  | 0, c :: rest =>
    if c = ' ' then tokensFrom 0 rest
    else
      match token? (c :: rest) with
      | some (token, length) => (tokensFrom (length - 1) rest).map (token :: ·)
      | none => none

/-- The tokens of a text. -/
def tokens? (cs : List Char) : Option (List Token) :=
  tokensFrom 0 cs

/-! ## Trees and precedence -/

/-- A condition by its structure. A comparison is a chain of one or more links. -/
inductive Tree
  | column (name : List Char)
  | integer (value : Int)
  | both (left right : Tree)
  | either (left right : Tree)
  | compare (first : Tree) (links : List (Operator × Tree))

/-- A sum of products, where the sum may still be empty. -/
def closeSum : Option Tree → Tree → Tree
  | none, product => product
  | some sum, product => .either sum product

/-- Trees combined from the left, after a sum and a product that are not finished yet. -/
def combineFrom : Option Tree → Tree → List (Connective × Tree) → Tree
  | sum, product, [] => closeSum sum product
  | sum, product, (.both, tree) :: rest => combineFrom sum (.both product tree) rest
  | sum, product, (.either, tree) :: rest => combineFrom (some (closeSum sum product)) tree rest

/-- Trees with connectives between them, where the one for both binds tighter. -/
def combine (first : Tree) (rest : List (Connective × Tree)) : Tree :=
  combineFrom none first rest

/-- What stands between two operands. -/
inductive Link
  | operator (operator : Operator)
  | connective (connective : Connective)

/-- A row of links cut at its operators: the links before the first operator, and for each
operator the operand after it with the links that follow. -/
def cutAtOperators :
    List (Link × Tree) →
      List (Connective × Tree) × List (Operator × Tree × List (Connective × Tree))
  | [] => ([], [])
  | (.connective connective, tree) :: rest =>
    ((connective, tree) :: (cutAtOperators rest).1, (cutAtOperators rest).2)
  | (.operator operator, tree) :: rest =>
    ([], (operator, tree, (cutAtOperators rest).1) :: (cutAtOperators rest).2)

/-- Operands with links between them, where operators bind loosest. -/
def rowTree (first : Tree) (row : List (Link × Tree)) : Tree :=
  match cutAtOperators row with
  | (front, []) => combine first front
  | (front, later) =>
    .compare (combine first front) (later.map fun link => (link.1, combine link.2.1 link.2.2))

/-! ## Reading a program -/

/-- How far a row has been read. -/
inductive Progress
  | start
  | operand (first : Tree) (row : List (Link × Tree))
  | linked (first : Tree) (row : List (Link × Tree)) (link : Link)

/-- One more operand. -/
def Progress.feed? (tree : Tree) : Progress → Option Progress
  | start => some (operand tree [])
  | operand _ _ => none
  | linked first row link => some (operand first (row ++ [(link, tree)]))

/-- One more link. -/
def Progress.link? (link : Link) : Progress → Option Progress
  | operand first row => some (linked first row link)
  | _ => none

/-- The tree of a row that is complete. -/
def Progress.close? : Progress → Option Tree
  | operand first row => some (rowTree first row)
  | _ => none

/-- Reads tokens inside the rows that were left by opening parentheses. -/
def readTokens : List Progress → Progress → List Token → Option Tree
  | [], progress, [] => progress.close?
  | _ :: _, _, [] => none
  | outer, progress, .column name :: rest =>
    (progress.feed? (.column name)).bind fun progress => readTokens outer progress rest
  | outer, progress, .integer value :: rest =>
    (progress.feed? (.integer value)).bind fun progress => readTokens outer progress rest
  | outer, progress, .operator operator :: rest =>
    (progress.link? (.operator operator)).bind fun progress => readTokens outer progress rest
  | outer, progress, .connective connective :: rest =>
    (progress.link? (.connective connective)).bind fun progress => readTokens outer progress rest
  | outer, progress, .opening :: rest => readTokens (progress :: outer) .start rest
  | [], _, .closing :: _ => none
  | enclosing :: outer, progress, .closing :: rest =>
    (progress.close?.bind enclosing.feed?).bind fun progress => readTokens outer progress rest

/-- The tree of a condition of a program. -/
def readTree? (cs : List Char) : Option Tree :=
  (tokens? cs).bind (readTokens [] .start)

/-! ## The tokens of a row -/

/-- The token of a lexeme; a space has none. -/
def Lexeme.token? : Lexeme → Option Token
  | space => none
  | column name => some (.column name.chars)
  | integer value => some (.integer value)
  | operator sign => some (.operator sign)
  | connective sign => some (.connective sign)
  | opening => some .opening
  | closing => some .closing

theorem tokensFrom_eq_drop (skip : Nat) (cs : List Char) :
    tokensFrom skip cs = tokens? (cs.drop skip) := by
  induction cs generalizing skip with
  | nil => cases skip <;> rfl
  | cons c cs ih =>
      cases skip with
      | zero => rfl
      | succ skip =>
          rw [tokensFrom, List.drop_succ_cons]
          exact ih skip

/-- A token that stands at the start of a text comes first. -/
theorem tokens?_append {text rest : List Char} {token : Token} {c : Char}
    (hc : c ∈ text.head?) (hne : c ≠ ' ')
    (htoken : token? (text ++ rest) = some (token, text.length)) :
    tokens? (text ++ rest) = (tokens? rest).map (token :: ·) := by
  cases text with
  | nil => exact absurd hc (by simp)
  | cons d text =>
      obtain rfl : d = c := by simpa using hc
      rw [List.cons_append] at htoken ⊢
      rw [tokens?, tokensFrom, if_neg hne, htoken]
      simp [tokensFrom_eq_drop]

/-- A column is read as such. -/
theorem token?_columnRef (name : ColumnName) (rest : List Char) :
    token? (columnRef name.chars ++ rest) =
      some (.column name.chars, (columnRef name.chars).length) := by
  have hquote : startsWord ('\'' :: ')' :: rest) = false := by
    show isWord '\'' = false
    decide
  obtain ⟨hrun, hafter⟩ := wordRun_append name.word hquote
  have hdrop : ['c', 'o', 'l', '(', '\''].isPrefixOf? (columnRef name.chars ++ rest) =
      some (name.chars ++ '\'' :: ')' :: rest) := by
    simp [columnRef, List.isPrefixOf?]
  have hcolumn : column? (columnRef name.chars ++ rest) =
      some (.column name.chars, name.chars.length + 7) := by
    rw [column?, hdrop]
    show (if _ then _ else _) = _
    rw [hafter, hrun]
    rfl
  rw [token?, hcolumn, Option.some_or]
  simp [columnRef]

/-- The digits of a number are read as the number. -/
theorem digits?_toDigits (number : Nat) {rest : List Char} (hrest : startsWord rest = false) :
    digits? (Nat.toDigits 10 number ++ rest) = some number ∧
      wordRun (Nat.toDigits 10 number ++ rest) = Nat.toDigits 10 number := by
  have hword : (Nat.toDigits 10 number).all isWord = true :=
    List.all_eq_true.mpr fun _ => isWord_of_mem_toDigits
  have hdigit : (Nat.toDigits 10 number).all Char.isDigit = true :=
    List.all_eq_true.mpr fun _ => Nat.isDigit_of_mem_toDigits (by decide) (by decide)
  have hrun := (wordRun_append hword hrest).1
  refine ⟨?_, hrun⟩
  rw [digits?, hrun, if_pos ⟨Nat.toDigits_ne_nil, hdigit⟩, Nat.ofDigitChars_ten_toDigits]

/-- Only a `c` begins a column. -/
theorem column?_eq_none {cs : List Char} (h : 'c' ∉ cs.head?) : column? cs = none := by
  cases cs with
  | nil => rfl
  | cons c cs =>
      have hne : 'c' ≠ c := fun heq => h (by rw [heq]; rfl)
      simp [column?, List.isPrefixOf?, hne]

/-- An integer is read as such, where no word character follows. -/
theorem token?_integerChars (value : Int) {rest : List Char} (hrest : startsWord rest = false) :
    token? (integerChars value ++ rest) = some (.integer value, (integerChars value).length) := by
  cases value with
  | ofNat number =>
      obtain ⟨hdigits, hrun⟩ := digits?_toDigits number hrest
      have hhead : ∀ c ∈ (Nat.toDigits 10 number ++ rest).head?, c ∈ Nat.toDigits 10 number := by
        intro c hc
        rw [List.head?_append_of_ne_nil _ Nat.toDigits_ne_nil] at hc
        exact List.mem_of_mem_head? hc
      have hcolumn : column? (Nat.toDigits 10 number ++ rest) = none :=
        column?_eq_none fun hmem => absurd (toNat_of_mem_toDigits (hhead _ hmem)).2 (by decide)
      have hminus : ['-'].isPrefixOf (Nat.toDigits 10 number ++ rest) = false :=
        isPrefixOf_singleton_eq_false fun hmem =>
          absurd (toNat_of_mem_toDigits (hhead _ hmem)).1 (by decide)
      rw [integerChars, token?, hcolumn, integer?, hminus, if_neg Bool.false_ne_true, hdigits, hrun]
      rfl
  | negSucc number =>
      obtain ⟨hdigits, hrun⟩ := digits?_toDigits (number + 1) hrest
      have hcolumn : column? ('-' :: (Nat.toDigits 10 (number + 1) ++ rest)) = none :=
        column?_eq_none (by simp)
      have hminus : ['-'].isPrefixOf ('-' :: (Nat.toDigits 10 (number + 1) ++ rest)) = true := by
        rw [isPrefixOf_singleton]
        rfl
      rw [integerChars, List.cons_append, token?, hcolumn, integer?, if_pos hminus, List.tail_cons,
        hdigits, hrun]
      rfl

/-- Where neither a word nor a minus stands, a token is one with a fixed text. -/
theorem token?_cons {c : Char} (hword : isWord c = false) (hminus : c ≠ '-') (rest : List Char) :
    token? (c :: rest) = (fixedTokens.find? fun fixed => fixed.1.isPrefixOf (c :: rest)).map
      fun fixed => (fixed.2, fixed.1.length) := by
  have hcolumn : column? (c :: rest) = none := by
    apply column?_eq_none
    intro hmem
    obtain rfl : c = 'c' := by simpa using hmem
    exact absurd hword (by decide)
  have hstarts : ['-'].isPrefixOf (c :: rest) = false :=
    isPrefixOf_singleton_eq_false (by simpa using hminus)
  have hinteger : integer? (c :: rest) = none := by
    have hrun : wordRun (c :: rest) = [] := List.takeWhile_cons_of_neg (by simp [hword])
    rw [integer?, hstarts, if_neg Bool.false_ne_true, digits?, hrun]
    rfl
  rw [token?, hcolumn, hinteger, Option.none_or, Option.none_or]

/-- An operator is read as such, where no operator goes on. -/
theorem token?_operator (operator : Operator) {rest : List Char}
    (hrest : ∀ c ∈ rest.head?, c ∉ operatorChars) :
    token? (operator.symbol ++ rest) = some (.operator operator, operator.symbol.length) := by
  have hequals : ['='].isPrefixOf rest = false :=
    isPrefixOf_singleton_eq_false fun hmem => hrest _ hmem (by decide)
  have hlonger : ∀ c d : Char, [c, '='].isPrefixOf (d :: rest) = false := by
    intro c d
    by_cases hc : c = d
    · simpa [List.isPrefixOf, hc] using hequals
    · simp [List.isPrefixOf, hc]
  cases operator with
  | equal => exact token?_cons (by decide) (by decide) _
  | unequal => exact token?_cons (by decide) (by decide) _
  | atMost => exact token?_cons (by decide) (by decide) _
  | atLeast => exact token?_cons (by decide) (by decide) _
  | less =>
      show token? ('<' :: rest) = _
      rw [token?_cons (by decide) (by decide)]
      simp [fixedTokens, Operator.symbol, hlonger]
  | greater =>
      show token? ('>' :: rest) = _
      rw [token?_cons (by decide) (by decide)]
      simp [fixedTokens, Operator.symbol, hlonger, isPrefixOf_singleton]

/-- The tokens of a row in a program are those of its lexemes. -/
theorem tokens?_write {lexemes : List Lexeme} (hlaid : Laid lexemes) :
    tokens? (Spelling.program.write lexemes) = some (lexemes.filterMap Lexeme.token?) := by
  induction lexemes with
  | nil => rfl
  | cons lexeme rest ih =>
      obtain ⟨hoperand, hoperator, hrest⟩ := hlaid
      have hlawful := Spelling.lawful_program
      have hread : tokens? (Spelling.program.text lexeme ++ Spelling.program.write rest) =
          (tokens? (Spelling.program.write rest)).map (lexeme.token?.toList ++ ·) := by
        cases lexeme with
        | space => exact Option.map_id'.symm
        | column name => exact tokens?_append rfl (by decide) (token?_columnRef name _)
        | integer value =>
            obtain ⟨c, tail, htext, hbegins⟩ := hlawful.exists_text_eq_cons (.integer value)
            have hne : c ≠ ' ' := by
              rintro rfl
              rcases hbegins with hword | hminus
              · exact absurd hword (by decide)
              · exact absurd hminus (by decide)
            have hhead : c ∈ (Spelling.program.text (.integer value)).head? := by
              rw [htext]
              rfl
            exact tokens?_append hhead hne
              (token?_integerChars value (hlawful.startsWord_write (hoperand rfl).1))
        | operator operator =>
            have htoken := token?_operator operator fun c hc =>
              hlawful.not_mem_operatorChars (hoperator rfl) hc
            cases operator <;> exact tokens?_append rfl (by decide) htoken
        | connective connective =>
            have htoken : token? (connective.symbol ++ ' ' :: Spelling.program.write rest) =
                some (.connective connective, connective.symbol.length) := by
              cases connective <;> exact token?_cons (by decide) (by decide) _
            show tokens? (connective.symbol ++ [' '] ++ Spelling.program.write rest) = _
            rw [List.append_assoc, List.singleton_append]
            cases connective <;> exact tokens?_append rfl (by decide) htoken
        | opening | closing =>
            exact tokens?_append rfl (by decide) (token?_cons (by decide) (by decide) _)
      rw [Spelling.write_cons, hread, ih hrest, List.filterMap_cons]
      cases lexeme <;> rfl

/-- The tokens of a condition, without its spaces. -/
def Condition.tokens : Condition → List Token
  | compare comparison =>
    [.column comparison.column.chars, .operator comparison.operator, .integer comparison.value]
  | group inner => .opening :: (inner.tokens ++ [.closing])
  | connect left sign _ right => left.tokens ++ .connective sign :: right.tokens

theorem filterMap_token?_spaces (count : Nat) :
    (List.replicate count Lexeme.space).filterMap Lexeme.token? = [] := by
  induction count with
  | zero => rfl
  | succ count ih => exact ih

theorem Condition.filterMap_token?_lexemes (condition : Condition) :
    condition.lexemes.filterMap Lexeme.token? = condition.tokens := by
  induction condition with
  | compare comparison =>
      simp [lexemes, tokens, Comparison.lexemes, Spacing.around, Lexeme.token?,
        filterMap_token?_spaces]
  | group inner ih => simp [lexemes, tokens, ih, Lexeme.token?]
  | connect left sign spacing right ihLeft ihRight =>
      simp [lexemes, tokens, Spacing.around, ihLeft, ihRight, Lexeme.token?,
        filterMap_token?_spaces]

/-! ## The tree that is read -/

/-- The operands of a condition in a program, with the links between them. -/
def Condition.row : Condition → Tree × List (Link × Tree)
  | compare comparison =>
    (.column comparison.column.chars, [(.operator comparison.operator, .integer comparison.value)])
  | group inner => (rowTree inner.row.1 inner.row.2, [])
  | connect left sign _ right =>
    (left.row.1, left.row.2 ++ (.connective sign, right.row.1) :: right.row.2)

/-- The tree of a condition in a program. -/
def Condition.reading (condition : Condition) : Tree :=
  rowTree condition.row.1 condition.row.2

/-- A row read after what was read before it. -/
def Progress.extend? (row : Tree × List (Link × Tree)) : Progress → Option Progress
  | start => some (operand row.1 row.2)
  | operand _ _ => none
  | linked first links link => some (operand first (links ++ (link, row.1) :: row.2))

/-- Where an operand is expected, a whole condition is read as its row. -/
theorem readTokens_condition (condition : Condition) {outer : List Progress}
    {progress later : Progress} (h : progress.extend? condition.row = some later)
    (rest : List Token) :
    readTokens outer progress (condition.tokens ++ rest) = readTokens outer later rest := by
  induction condition generalizing outer progress later rest with
  | compare comparison =>
      cases progress with
      | operand first links => cases h
      | start | linked first links link =>
          obtain rfl := Option.some.inj h
          simp [Condition.tokens, Condition.row, readTokens, Progress.feed?, Progress.link?]
  | group inner ih =>
      have hinner : readTokens (progress :: outer) .start (inner.tokens ++ .closing :: rest) =
          readTokens (progress :: outer) (.operand inner.row.1 inner.row.2) (.closing :: rest) :=
        ih rfl _
      have hfeed : progress.feed? (rowTree inner.row.1 inner.row.2) = some later := by
        cases progress <;> exact h
      rw [Condition.tokens, List.cons_append, List.append_assoc, List.singleton_append, readTokens,
        hinner, readTokens, Progress.close?, Option.bind_some, hfeed, Option.bind_some]
  | connect left sign spacing right ihLeft ihRight =>
      have hsteps : ∃ before after, progress.extend? left.row = some before ∧
          before.link? (.connective sign) = some after ∧ after.extend? right.row = some later := by
        cases progress with
        | operand first links => cases h
        | start => exact ⟨_, _, rfl, rfl, h⟩
        | linked first links link =>
            refine ⟨_, _, rfl, rfl, ?_⟩
            rw [← h]
            simp [Progress.extend?, Condition.row]
      obtain ⟨before, after, hleft, hlink, hright⟩ := hsteps
      rw [Condition.tokens, List.append_assoc, List.cons_append, ihLeft hleft, readTokens, hlink,
        Option.bind_some, ihRight hright]

/-- A converted condition is read with the precedence of the program. -/
theorem readTree?_convertExpression_eq (condition : Condition) :
    readTree? (convertExpression condition.text) = some condition.reading := by
  have hread : readTokens [] .start (condition.tokens ++ []) =
      readTokens [] (.operand condition.row.1 condition.row.2) [] :=
    readTokens_condition condition rfl []
  rw [Condition.text, Spelling.convertExpression_script condition.laid_lexemes, readTree?,
    tokens?_write condition.laid_lexemes, condition.filterMap_token?_lexemes, Option.bind_some,
    ← List.append_nil condition.tokens, hread]
  rfl

/-! ## The tree that is meant -/

/-- A comparison by its structure. -/
def Comparison.tree (comparison : Comparison) : Tree :=
  .compare (.column comparison.column.chars) [(comparison.operator, .integer comparison.value)]

/-- What the connectives of a condition join, as the script means it. -/
def Condition.terms : Condition → Tree × List (Connective × Tree)
  | compare comparison => (comparison.tree, [])
  | group inner => (combine inner.terms.1 inner.terms.2, [])
  | connect left sign _ right =>
    (left.terms.1, left.terms.2 ++ (sign, right.terms.1) :: right.terms.2)

/-- The tree of a condition as the script means it. -/
def Condition.meaning (condition : Condition) : Tree :=
  combine condition.terms.1 condition.terms.2

/-- What the connectives of a condition join, with its groups as they are read. -/
def Condition.readTerms : Condition → Tree × List (Connective × Tree)
  | compare comparison => (comparison.tree, [])
  | group inner => (inner.reading, [])
  | connect left sign _ right =>
    (left.readTerms.1, left.readTerms.2 ++ (sign, right.readTerms.1) :: right.readTerms.2)

/-- Whether some comparison stands outside of all parentheses. -/
def Condition.bare : Condition → Bool
  | compare _ => true
  | group _ => false
  | connect left _ _ right => left.bare || right.bare

/-- Whether each comparison beside a connective stands in parentheses of its own. -/
def Condition.separated : Condition → Bool
  | compare _ => true
  | group inner => inner.separated
  | connect left _ _ right => !left.bare && !right.bare && left.separated && right.separated

/-- Whether a condition has no parentheses. -/
def Condition.groupless : Condition → Bool
  | compare _ => true
  | group _ => false
  | connect left _ _ right => left.groupless && right.groupless

/-! ### Combined trees -/

/-- Whether a tree has a connective at its root. -/
def Tree.isConnected : Tree → Bool
  | both _ _ | either _ _ => true
  | _ => false

/-- Trees that are combined have a connective at the root. -/
theorem isConnected_combineFrom {sum : Option Tree} {product : Tree}
    {rest : List (Connective × Tree)}
    (h : sum.isSome = true ∨ product.isConnected = true ∨ rest ≠ []) :
    (combineFrom sum product rest).isConnected = true := by
  induction rest generalizing sum product with
  | nil =>
      cases sum with
      | none => simpa [combineFrom, closeSum] using h
      | some sum => rfl
  | cons term rest ih =>
      obtain ⟨sign, tree⟩ := term
      cases sign with
      | both => exact ih (Or.inr (Or.inl rfl))
      | either => exact ih (Or.inl rfl)

theorem closeSum_inj {sum sum' : Option Tree} {product product' : Tree}
    (hsum : sum.isSome = sum'.isSome) (h : closeSum sum product = closeSum sum' product') :
    sum = sum' ∧ product = product' := by
  cases sum with
  | none =>
      obtain rfl : sum' = none := by simpa using hsum.symm
      exact ⟨rfl, h⟩
  | some tree =>
      obtain ⟨tree', rfl⟩ := Option.isSome_iff_exists.mp hsum.symm
      obtain ⟨rfl, rfl⟩ := Tree.either.inj h
      exact ⟨rfl, rfl⟩

/-- With the same connectives, only the same trees combine to one tree. -/
theorem combineFrom_inj {sum sum' : Option Tree} {product product' : Tree}
    {rest rest' : List (Connective × Tree)} (hsum : sum.isSome = sum'.isSome)
    (hsigns : rest.map Prod.fst = rest'.map Prod.fst)
    (h : combineFrom sum product rest = combineFrom sum' product' rest') :
    sum = sum' ∧ product = product' ∧ rest = rest' := by
  induction rest generalizing sum sum' product product' rest' with
  | nil =>
      obtain rfl : rest' = [] := by simpa using hsigns.symm
      obtain ⟨rfl, rfl⟩ := closeSum_inj hsum h
      exact ⟨rfl, rfl, rfl⟩
  | cons term rest ih =>
      cases rest' with
      | nil => cases hsigns
      | cons term' rest' =>
          obtain ⟨sign, tree⟩ := term
          obtain ⟨sign', tree'⟩ := term'
          obtain ⟨rfl, hrest⟩ := List.cons.inj hsigns
          cases sign with
          | both =>
              obtain ⟨rfl, hproduct, rfl⟩ := ih hsum hrest h
              obtain ⟨rfl, rfl⟩ := Tree.both.inj hproduct
              exact ⟨rfl, rfl, rfl⟩
          | either =>
              have hsome : (some (closeSum sum product)).isSome =
                  (some (closeSum sum' product')).isSome := rfl
              obtain ⟨hclosed, rfl, rfl⟩ := ih hsome hrest h
              obtain ⟨rfl, rfl⟩ := closeSum_inj hsum (Option.some.inj hclosed)
              exact ⟨rfl, rfl, rfl⟩

/-! ### Where the two trees agree -/

/-- Terms as a row without operators. -/
def connected (terms : List (Connective × Tree)) : List (Link × Tree) :=
  terms.map fun term => (.connective term.1, term.2)

theorem rowTree_connected (first : Tree) (terms : List (Connective × Tree)) :
    rowTree first (connected terms) = combine first terms := by
  have hcut : cutAtOperators (connected terms) = (terms, []) := by
    induction terms with
    | nil => rfl
    | cons term terms ih =>
        show ((term.1, term.2) :: (cutAtOperators (connected terms)).1,
          (cutAtOperators (connected terms)).2) = _
        rw [ih]
  rw [rowTree, hcut]

/-- A row with an operator is a comparison. -/
theorem exists_rowTree_eq_compare {first : Tree} {row : List (Link × Tree)} {operator : Operator}
    {tree : Tree} (h : (.operator operator, tree) ∈ row) :
    ∃ front links, rowTree first row = .compare front links := by
  have hcut : ∃ link later, (cutAtOperators row).2 = link :: later := by
    induction row with
    | nil => cases h
    | cons link row ih =>
        obtain ⟨link, operand⟩ := link
        cases link with
        | operator sign => exact ⟨_, _, rfl⟩
        | connective sign =>
            rcases List.mem_cons.mp h with heq | hmem
            · cases heq
            · exact ih hmem
  obtain ⟨link, later, hlater⟩ := hcut
  have hrow : cutAtOperators row = ((cutAtOperators row).1, link :: later) :=
    Prod.ext rfl hlater
  rw [rowTree, hrow]
  exact ⟨_, _, rfl⟩

namespace Condition

/-- Without bare comparisons the row of a condition has its connectives only. -/
theorem row_eq_of_not_bare {condition : Condition} (h : condition.bare = false) :
    condition.row = (condition.readTerms.1, connected condition.readTerms.2) := by
  induction condition with
  | compare comparison => cases h
  | group inner _ => rfl
  | connect left sign spacing right ihLeft ihRight =>
      obtain ⟨hleft, hright⟩ := Bool.or_eq_false_iff.mp h
      simp [row, readTerms, connected, ihLeft hleft, ihRight hright]

/-- A bare comparison brings its operator into the row. -/
theorem exists_operator_mem_row {condition : Condition} (h : condition.bare = true) :
    ∃ operator tree, (.operator operator, tree) ∈ condition.row.2 := by
  induction condition with
  | compare comparison => exact ⟨_, _, List.mem_singleton_self _⟩
  | group inner _ => cases h
  | connect left sign spacing right ihLeft ihRight =>
      rcases Bool.or_eq_true_iff.mp h with hleft | hright
      · obtain ⟨operator, tree, hmem⟩ := ihLeft hleft
        exact ⟨operator, tree, List.mem_append_left _ hmem⟩
      · obtain ⟨operator, tree, hmem⟩ := ihRight hright
        exact ⟨operator, tree, List.mem_append_right _ (List.mem_cons_of_mem _ hmem)⟩

/-- The terms have the same connectives, however the groups are read. -/
theorem map_fst_readTerms (condition : Condition) :
    condition.readTerms.2.map Prod.fst = condition.terms.2.map Prod.fst := by
  induction condition with
  | compare comparison => rfl
  | group inner _ => rfl
  | connect left sign spacing right ihLeft ihRight =>
      simp [readTerms, terms, ihLeft, ihRight]

theorem readTerms_connect_eq_iff (left : Condition) (sign : Connective) (spacing : Spacing)
    (right : Condition) :
    (connect left sign spacing right).readTerms = (connect left sign spacing right).terms ↔
      left.readTerms = left.terms ∧ right.readTerms = right.terms := by
  constructor
  · intro h
    obtain ⟨hfirst, hrest⟩ := Prod.mk.inj h
    have hlength : left.readTerms.2.length = left.terms.2.length := by
      simpa using congrArg List.length left.map_fst_readTerms
    obtain ⟨hleft, hright⟩ := List.append_inj hrest hlength
    obtain ⟨hterm, hlater⟩ := List.cons.inj hright
    exact ⟨Prod.ext hfirst hleft, Prod.ext (Prod.mk.inj hterm).2 hlater⟩
  · rintro ⟨hleft, hright⟩
    simp only [readTerms, terms, hleft, hright]

/-- Without bare comparisons a condition is read as it is meant if its groups are. -/
theorem reading_eq_meaning_iff_of_not_bare {condition : Condition} (h : condition.bare = false) :
    condition.reading = condition.meaning ↔ condition.readTerms = condition.terms := by
  rw [reading, row_eq_of_not_bare h, rowTree_connected, meaning]
  constructor
  · intro heq
    obtain ⟨-, hfirst, hrest⟩ := combineFrom_inj rfl condition.map_fst_readTerms heq
    exact Prod.ext hfirst hrest
  · intro heq
    rw [heq]

/-- A connective beside a bare comparison is read as part of its operand. -/
theorem reading_ne_meaning_of_bare {left right : Condition} (sign : Connective) (spacing : Spacing)
    (h : (connect left sign spacing right).bare = true) :
    (connect left sign spacing right).reading ≠ (connect left sign spacing right).meaning := by
  intro heq
  obtain ⟨operator, tree, hmem⟩ := exists_operator_mem_row h
  obtain ⟨front, links, hcompare⟩ := exists_rowTree_eq_compare hmem
  have hconnected : (connect left sign spacing right).meaning.isConnected = true :=
    isConnected_combineFrom (Or.inr (Or.inr (by simp [terms])))
  rw [← heq, reading, hcompare] at hconnected
  cases hconnected

/-- A condition is read as it is meant exactly if its comparisons are separated. -/
theorem reading_eq_meaning_iff (condition : Condition) :
    condition.reading = condition.meaning ↔ condition.separated = true := by
  have hboth : (condition.bare = false →
      (condition.readTerms = condition.terms ↔ condition.separated = true)) ∧
        (condition.reading = condition.meaning ↔ condition.separated = true) := by
    induction condition with
    | compare comparison => exact ⟨nofun, iff_of_true rfl rfl⟩
    | group inner ih =>
        have hterms : (group inner).readTerms = (group inner).terms ↔
            (group inner).separated = true := by
          rw [separated, ← ih.2, readTerms, terms, Prod.mk.injEq, meaning]
          exact and_iff_left rfl
        exact ⟨fun _ => hterms, (reading_eq_meaning_iff_of_not_bare rfl).trans hterms⟩
    | connect left sign spacing right ihLeft ihRight =>
        have hterms : (connect left sign spacing right).bare = false →
            ((connect left sign spacing right).readTerms =
              (connect left sign spacing right).terms ↔
                (connect left sign spacing right).separated = true) := by
          intro hbare
          obtain ⟨hleft, hright⟩ := Bool.or_eq_false_iff.mp hbare
          rw [readTerms_connect_eq_iff, ihLeft.1 hleft, ihRight.1 hright]
          simp [separated, hleft, hright]
        refine ⟨hterms, ?_⟩
        cases hbare : (connect left sign spacing right).bare with
        | false => exact (reading_eq_meaning_iff_of_not_bare hbare).trans (hterms hbare)
        | true =>
            have hapart : (connect left sign spacing right).separated = false := by
              rcases Bool.or_eq_true_iff.mp hbare with hleft | hright
              · simp [separated, hleft]
              · simp [separated, hright]
            refine iff_of_false (reading_ne_meaning_of_bare sign spacing hbare) ?_
            rw [hapart]
            exact Bool.false_ne_true
  exact hboth.2

/-- Without parentheses every comparison is bare. -/
theorem bare_of_groupless {condition : Condition} (h : condition.groupless = true) :
    condition.bare = true := by
  induction condition with
  | compare comparison => rfl
  | group inner _ => cases h
  | connect left sign spacing right ihLeft _ =>
      obtain ⟨hleft, -⟩ := Bool.and_eq_true_iff.mp h
      rw [bare, ihLeft hleft, Bool.true_or]

/-- Without parentheses only a single comparison is separated. -/
theorem separated_iff_of_groupless {condition : Condition} (h : condition.groupless = true) :
    condition.separated = true ↔ ∃ comparison, condition = .compare comparison := by
  cases condition with
  | compare comparison => exact iff_of_true rfl ⟨comparison, rfl⟩
  | group inner => cases h
  | connect left sign spacing right =>
      obtain ⟨hleft, -⟩ := Bool.and_eq_true_iff.mp h
      simp [separated, bare_of_groupless hleft]

end Condition

/-- A converted condition has a tree with the precedence of the program. It is the tree that
the script means exactly if each comparison beside a connective stands in parentheses of its
own; without parentheses, exactly if there is a single comparison. -/
theorem reading_of_convertExpression (condition : Condition) :
    readTree? (convertExpression condition.text) = some condition.reading ∧
      (readTree? (convertExpression condition.text) = some condition.meaning ↔
        condition.separated = true) ∧
      (condition.groupless = true →
        (readTree? (convertExpression condition.text) = some condition.meaning ↔
          ∃ comparison, condition = .compare comparison)) := by
  have hread := readTree?_convertExpression_eq condition
  have hmeant : readTree? (convertExpression condition.text) = some condition.meaning ↔
      condition.separated = true := by
    rw [hread, Option.some.injEq, Condition.reading_eq_meaning_iff]
  exact ⟨hread, hmeant, fun h => hmeant.trans (Condition.separated_iff_of_groupless h)⟩

/-- The condition `a = 1 AND b = 2`. -/
def oneAndTwo : Condition :=
  .connect (.compare ⟨columnA, .equal, ⟨1, 1⟩, 1⟩) .both ⟨0, 0⟩
    (.compare ⟨⟨['b'], by decide, by decide, by decide⟩, .equal, ⟨1, 1⟩, 2⟩)

theorem reading_of_convertExpression_oneAndTwo :
    oneAndTwo.text = "a = 1 AND b = 2".toList ∧ oneAndTwo.groupless = true ∧
      readTree? (convertExpression oneAndTwo.text) =
        some (.compare (.column ['a'])
          [(.equal, .both (.integer 1) (.column ['b'])), (.equal, .integer 2)]) ∧
      readTree? (convertExpression oneAndTwo.text) ≠ some oneAndTwo.meaning := by
  obtain ⟨hread, -, hmeant⟩ := reading_of_convertExpression oneAndTwo
  refine ⟨by decide, rfl, hread, fun heq => ?_⟩
  obtain ⟨comparison, hsingle⟩ := (hmeant rfl).mp heq
  cases hsingle

end QlikMigration.Spark
