import QlikMigration.Proofs.CallTrees

/-!
# Converting calls from the inside

One expects a converted call to be the function's rule applied to its converted
arguments. Here it is said when that is so.

It is so if all arguments are integers. Otherwise the call is cut in its first
argument that is not an integer. Then the rule must write the pieces before the
cut, and the arguments themselves, in the same plain way: behind commas, with one
parenthesis at the end. And the argument that is cut must be a column, or a call
of a function that keeps its name, since that name is not converted.

A function that is dropped around its first argument is a case of its own: there
it matters what is left over of the other arguments.
-/

namespace QlikMigration.Spark

open QlikMigration.Text QlikMigration.Script

/-! ## Plain calls -/

namespace CallShape

/-- Whether an argument behind so many further ones is written. -/
def reaches (shape : CallShape) : Nat → Nat → Bool
  | count, 0 => (shape.before count).isSome
  | count, further + 1 => (shape.before count).isSome && shape.reaches (count + 1) further

/-- Whether a call goes on with so many further arguments in the plain way: behind commas, with
one parenthesis at the end. -/
def continues (shape : CallShape) : Nat → Nat → Bool
  | count, 0 => shape.closing count == [')']
  | count, further + 1 =>
    shape.before count == some [',', ' '] && shape.continues (count + 1) further

theorem write_of_continues {shape : CallShape} {count : Nat} {args : List (List Char)}
    (h : shape.continues count args.length = true) : shape.write count args = callEnd args := by
  induction args generalizing count with
  | nil => exact eq_of_beq h
  | cons arg args ih =>
      rw [List.length_cons, continues, Bool.and_eq_true, beq_iff_eq] at h
      rw [write, h.1, ih h.2, callEnd_cons]
      rfl

theorem eq_closing_of_append {text rest other : List Char} (htext : isClosing text = true)
    (hother : '.' ∉ other.head?) (h : text ++ rest = ')' :: other) : text = [')'] := by
  cases text with
  | nil => cases htext
  | cons c text =>
      obtain ⟨rfl, hrest⟩ := List.cons.inj h
      rw [isClosing, Bool.or_eq_true, List.isEmpty_iff, beq_iff_eq] at htext
      rcases htext with rfl | hstop
      · rfl
      · obtain ⟨tail, rfl⟩ := List.head?_eq_some_iff.mp hstop
        rw [← hrest] at hother
        exact absurd rfl hother

theorem eq_separator_of_append {text rest other : List Char} (htext : isSeparator text = true)
    (h : text ++ rest = ',' :: other) : text = [',', ' '] := by
  rw [isSeparator, Bool.or_eq_true, beq_iff_eq, beq_iff_eq] at htext
  rcases htext with hcomma | hclosing
  · exact hcomma
  · obtain ⟨text, rfl⟩ := List.head?_eq_some_iff.mp hclosing
    exact absurd (List.cons.inj h).1 (by decide)

theorem append_ne_of_isFinal {text arg : List Char} (htext : isFinal text = true)
    (harg : startsArgument arg = true) (rest other : List Char) :
    text ++ rest ≠ ',' :: ' ' :: (arg ++ other) := by
  intro h
  cases arg with
  | nil => cases harg
  | cons d arg =>
      unfold isFinal at htext
      split at htext
      case h_1 => cases htext
      case h_2 c tail =>
        obtain ⟨-, hspace⟩ := List.cons.inj h
        obtain ⟨-, hc⟩ := List.cons.inj hspace
        obtain ⟨rfl, -⟩ := List.cons.inj hc
        simp_all [startsArgument]
      case h_3 => cases htext
      case h_4 c tail hlonger hcomma =>
        exact hcomma (List.cons.inj h).1

/-- A call of regular shape that reads like a plain one is one. -/
theorem continues_of_write_append {shape : CallShape} (hregular : shape.isRegular = true)
    {args : List (List Char)} (hargs : ∀ arg ∈ args, startsArgument arg = true) {count : Nat}
    {rest other : List Char} (hother : '.' ∉ other.head?)
    (h : shape.write (count + 1) args ++ rest = callEnd args ++ other) :
    shape.continues (count + 1) args.length = true := by
  induction args generalizing count with
  | nil =>
      rw [List.length_nil, continues, beq_iff_eq]
      exact eq_closing_of_append (isClosing_closing hregular (count + 1)) hother h
  | cons arg args ih =>
      rw [List.forall_mem_cons] at hargs
      rw [write, callEnd_cons, List.cons_append, List.cons_append, List.append_assoc] at h
      rw [List.length_cons, continues]
      cases hbefore : shape.before (count + 1) with
      | none =>
          -- Arguments are dropped here, but the plain call goes on.
          rw [hbefore] at h
          exact absurd h (append_ne_of_isFinal (isFinal_closing hregular hbefore) hargs.1 _ _)
      | some text =>
          rw [hbefore, List.append_assoc] at h
          obtain rfl := eq_separator_of_append (isSeparator_of_before hregular hbefore) h
          rw [List.append_assoc] at h
          have hlater := ih hargs.2 (List.append_cancel_left (List.append_cancel_left h))
          rw [hlater]
          rfl

/-- What stands before an argument that is written does not depend on the argument. -/
theorem write_append_of_reaches {shape : CallShape} {count : Nat} {leading : List (List Char)}
    (h : shape.reaches count leading.length = true) : ∃ front, ∀ arg args,
      shape.write count (leading ++ arg :: args) =
        front ++ (arg ++ shape.write (count + leading.length + 1) args) := by
  induction leading generalizing count with
  | nil =>
      obtain ⟨text, hbefore⟩ := Option.isSome_iff_exists.mp h
      refine ⟨text, fun arg args => ?_⟩
      rw [List.nil_append, write, hbefore]
      rfl
  | cons first leading ih =>
      rw [List.length_cons, reaches, Bool.and_eq_true] at h
      obtain ⟨text, hbefore⟩ := Option.isSome_iff_exists.mp h.1
      obtain ⟨front, hfront⟩ := ih h.2
      refine ⟨text ++ (first ++ front), fun arg args => ?_⟩
      rw [List.cons_append, write, hbefore, hfront, List.length_cons,
        Nat.add_right_comm count 1 leading.length, Nat.add_assoc count leading.length 1]
      simp

/-- An argument that is not written, and those behind it, do not matter. -/
theorem write_append_of_not_reaches {shape : CallShape} {count : Nat} {leading : List (List Char)}
    (h : shape.reaches count leading.length = false) (arg other : List Char)
    (args others : List (List Char)) :
    shape.write count (leading ++ arg :: args) =
      shape.write count (leading ++ other :: others) := by
  induction leading generalizing count with
  | nil =>
      have hbefore : shape.before count = none :=
        Option.isNone_iff_eq_none.mp (Option.isSome_eq_false_iff.mp h)
      rw [List.nil_append, List.nil_append, write, write, hbefore]
  | cons first leading ih =>
      rw [List.cons_append, List.cons_append, write, write]
      cases hbefore : shape.before count with
      | none => rfl
      | some text =>
          rw [List.length_cons, reaches, hbefore, Option.isSome_some, Bool.true_and] at h
          rw [ih h]

/-- What follows an argument begins with no character of an argument. -/
theorem exists_write_eq_cons {shape : CallShape} (hregular : shape.isRegular = true) (count : Nat)
    (args : List (List Char)) : ∃ c rest, shape.write (count + 1) args = c :: rest ∧
      inPiece c = false ∧ c ≠ '.' := by
  have hclosing : ∃ c rest, shape.closing (count + 1) = c :: rest ∧ inPiece c = false ∧
      c ≠ '.' := by
    have h := isClosing_closing hregular (count + 1)
    revert h
    generalize shape.closing (count + 1) = text
    intro h
    unfold isClosing at h
    split at h
    case h_1 => cases h
    case h_2 rest => exact ⟨')', rest, rfl, by decide, by decide⟩
    case h_3 c rest hne =>
      refine ⟨c, rest, rfl, ?_, ?_⟩
      · simp_all [inPiece]
      · simp_all
  cases args with
  | nil => exact hclosing
  | cons arg args =>
      rw [write]
      cases hbefore : shape.before (count + 1) with
      | none => exact hclosing
      | some text =>
          have h := isSeparator_of_before hregular hbefore
          rw [isSeparator, Bool.or_eq_true, beq_iff_eq, beq_iff_eq] at h
          rcases h with rfl | hhead
          · exact ⟨',', _, rfl, by decide, by decide⟩
          · obtain ⟨rest, rfl⟩ := List.head?_eq_some_iff.mp hhead
            exact ⟨')', _, rfl, by decide, by decide⟩

end CallShape

/-! ## The argument that is cut -/

open CallShape (startsArgument startsArgument_append startsArgument_of_startsWord write_zero
  write_spread exists_write_eq_cons continues_of_write_append write_of_continues
  write_append_of_reaches write_append_of_not_reaches)

/-- Whether a name stays as it is where a call is cut behind it: that of a column, or of a
function that keeps its name. -/
def Term.keepsName : Term → Bool
  | .column _ | .integer _ => true
  | .call function _ => function.shape == .spread (String.ofList function.chars)

theorem Arguments.callEnd_terms (args : Arguments) :
    callEnd (args.terms.map Term.converted) = ',' :: ' ' :: (args.converted ++ [')']) := by
  cases args with
  | one term => rw [Arguments.terms, List.map_singleton, callEnd_cons, callEnd_nil]; rfl
  | more term rest =>
      rw [Arguments.terms, List.map_cons, callEnd_cons, rest.callEnd_terms, Arguments.converted]
      simp

/-- The integers that arguments begin with, the first argument that is none, and the others. -/
structure Arguments.Cut (args : Arguments) (leading : List Numeral) (term : Term)
    (rest : List Term) : Prop where
  terms : args.terms = leading.map Term.integer ++ term :: rest
  marked : term.isInteger = false

/-- Arguments are cut in the first that is not an integer. -/
theorem Arguments.Cut.pieces_tail {args : Arguments} {leading : List Numeral} {term : Term}
    {rest : List Term} (hcut : args.Cut leading term rest) :
    args.pieces = leading.map Numeral.chars ++ term.pieces ∧
      args.tail = term.tail ++ callEnd (rest.map Term.converted) := by
  obtain ⟨hterms, hterm⟩ := hcut
  match args, leading with
  | .one first, [] =>
      obtain ⟨rfl, rfl⟩ := List.cons.inj hterms
      rw [Arguments.pieces, Arguments.tail, hterm]
      exact ⟨rfl, rfl⟩
  | .one first, numeral :: leading => simp [Arguments.terms] at hterms
  | .more first others, [] =>
      obtain ⟨rfl, rfl⟩ := List.cons.inj hterms
      rw [Arguments.pieces, Arguments.tail, hterm, others.callEnd_terms]
      exact ⟨rfl, rfl⟩
  | .more first others, numeral :: leading =>
      obtain ⟨rfl, hothers⟩ := List.cons.inj hterms
      obtain ⟨hpieces, htail⟩ := Arguments.Cut.pieces_tail ⟨hothers, hterm⟩
      rw [Arguments.pieces, Arguments.tail, hpieces, htail]
      exact ⟨rfl, rfl⟩

theorem Term.exists_of_isInteger {term : Term} (h : term.isInteger = true) :
    ∃ numeral, term = .integer numeral := by
  cases term with
  | column name => cases h
  | integer numeral => exact ⟨numeral, rfl⟩
  | call function args => cases h

theorem Arguments.integers_or_cut (args : Arguments) :
    (∀ term ∈ args.terms, term.isInteger = true) ∨
      ∃ leading term rest, args.Cut leading term rest := by
  cases args with
  | one term =>
      cases hterm : term.isInteger with
      | false => exact Or.inr ⟨[], term, [], rfl, hterm⟩
      | true => exact Or.inl (List.forall_mem_singleton.mpr hterm)
  | more term others =>
      cases hterm : term.isInteger with
      | false => exact Or.inr ⟨[], term, others.terms, rfl, hterm⟩
      | true =>
          rcases others.integers_or_cut with hintegers | ⟨leading, first, rest, hcut⟩
          · exact Or.inl (List.forall_mem_cons.mpr ⟨hterm, hintegers⟩)
          · obtain ⟨numeral, rfl⟩ := term.exists_of_isInteger hterm
            refine Or.inr ⟨numeral :: leading, first, rest, ?_, hcut.marked⟩
            rw [Arguments.terms, hcut.terms]
            rfl

/-- Integers are not cut. -/
theorem Arguments.cut_of_integers {args : Arguments}
    (h : ∀ term ∈ args.terms, term.isInteger = true) :
    args.pieces = args.terms.map Term.converted ∧ args.tail = [] := by
  cases args with
  | one term =>
      obtain ⟨numeral, rfl⟩ := term.exists_of_isInteger (h term List.mem_cons_self)
      exact ⟨rfl, rfl⟩
  | more term others =>
      rw [Arguments.terms, List.forall_mem_cons] at h
      obtain ⟨hpieces, htail⟩ := others.cut_of_integers h.2
      obtain ⟨numeral, rfl⟩ := term.exists_of_isInteger h.1
      rw [Arguments.pieces, Arguments.tail, hpieces, htail]
      exact ⟨rfl, rfl⟩

mutual
theorem Term.head?_tail (term : Term) : ∀ c ∈ term.tail.head?, c = ')' ∨ c = ',' := by
  cases term with
  | column name => exact nofun
  | integer numeral => exact nofun
  | call function args => exact args.head?_tail

theorem Arguments.head?_tail (args : Arguments) : ∀ c ∈ args.tail.head?, c = ')' ∨ c = ',' := by
  cases args with
  | one term =>
      have hterm := term.head?_tail
      rw [Arguments.tail]
      cases term.isInteger with
      | true => exact nofun
      | false =>
          revert hterm
          cases term.tail <;> simp
  | more term others =>
      have hterm := term.head?_tail
      rw [Arguments.tail]
      cases term.isInteger with
      | true => exact others.head?_tail
      | false =>
          revert hterm
          cases term.tail <;> simp
end

mutual
theorem Term.startsWord_of_mem_pieces (term : Term) :
    ∀ piece ∈ term.pieces, startsWord piece = true := by
  cases term with
  | column name =>
      intro piece hpiece
      obtain rfl := List.mem_singleton.mp hpiece
      show isWord 'c' = true
      decide
  | integer numeral =>
      intro piece hpiece
      obtain rfl := List.mem_singleton.mp hpiece
      exact (Term.integer numeral).startsWord_write
  | call function args =>
      have hargs := args.startsWord_of_mem_pieces
      obtain ⟨first, rest, hcons⟩ := List.exists_cons_of_ne_nil args.pieces_ne_nil
      rw [hcons, List.forall_mem_cons] at hargs
      rw [Term.pieces, hcons, openFirst, List.forall_mem_cons, List.append_assoc]
      exact ⟨startsWord_word_append function.chars_ne_nil function.isWord_of_mem _, hargs.2⟩

theorem Arguments.startsWord_of_mem_pieces (args : Arguments) :
    ∀ piece ∈ args.pieces, startsWord piece = true := by
  cases args with
  | one term => exact term.startsWord_of_mem_pieces
  | more term others =>
      rw [Arguments.pieces]
      split
      · exact List.forall_mem_append.mpr
          ⟨term.startsWord_of_mem_pieces, others.startsWord_of_mem_pieces⟩
      · exact term.startsWord_of_mem_pieces
end

namespace FunctionName

/-- A function keeps its name, or it is dropped around its first argument, or its call begins
otherwise. -/
theorem shape_cases (function : FunctionName) :
    function.shape = .spread (String.ofList function.chars) ∨
      (String.ofList function.chars = "Dual" ∧ function.shape = .limited [""] [""]) ∨
      function.shape.isRegular = true ∧ startsArgument function.shape.opening = true ∧
        function.shape.opening.head? ≠ function.chars.head? := by
  have hfits := fits_shape function.word
  rw [CallShape.fits, Bool.and_eq_true, Bool.or_eq_true, Bool.or_eq_true, beq_iff_eq,
    Bool.and_eq_true, beq_iff_eq, beq_iff_eq, Bool.and_eq_true, Bool.and_eq_true, bne_iff_ne,
    String.toList_ofList, and_assoc, or_assoc] at hfits
  exact hfits.2

theorem isRegular_shape {function : FunctionName} (h : String.ofList function.chars ≠ "Dual") :
    function.shape.isRegular = true := by
  rcases function.shape_cases with hspread | hdual | hregular
  · rw [hspread]
    rfl
  · exact absurd hdual.1 h
  · exact hregular.1

end FunctionName

/-- A function that is dropped around its first argument. -/
theorem write_dual (first : List Char) (rest : List (List Char)) :
    (CallShape.limited [""] [""]).write 0 (first :: rest) = first := by
  cases rest <;> simp [CallShape.write, CallShape.before, CallShape.closing]

/-- A converted expression begins like an argument. -/
theorem Term.startsArgument_converted (term : Term) : startsArgument term.converted = true := by
  cases term with
  | column name => rfl
  | integer numeral => exact startsArgument_of_startsWord (Term.integer numeral).startsWord_write
  | call function args =>
      obtain ⟨first, rest, hcons⟩ := List.exists_cons_of_ne_nil args.pieces_ne_nil
      have hstart : startsArgument (function.shape.write 0 (first :: rest)) = true := by
        rcases function.shape_cases with hspread | ⟨-, hdual⟩ | ⟨-, hopening, -⟩
        · have hword := startsWord_word_append function.chars_ne_nil function.isWord_of_mem
            ('(' :: (first ++ callEnd rest))
          rw [hspread, write_spread, String.toList_ofList]
          exact startsArgument_of_startsWord hword
        · rw [hdual, write_dual]
          refine startsArgument_of_startsWord (args.startsWord_of_mem_pieces first ?_)
          rw [hcons]
          exact List.mem_cons_self
        · rw [write_zero hopening]
          exact startsArgument_append hopening _
      rw [Term.converted, hcons]
      exact startsArgument_append hstart _

/-- A name that is kept stands before the cut as it stands in the converted expression. -/
theorem Term.converted_of_keepsName {term : Term} (hterm : term.isInteger = false)
    (hkeeps : term.keepsName = true) {first : List Char} {pieces : List (List Char)}
    (hpieces : term.pieces = first :: pieces) :
    term.converted = first ++ (callEnd pieces ++ term.tail) := by
  cases term with
  | column name =>
      obtain ⟨rfl, rfl⟩ := List.cons.inj hpieces
      simp [Term.converted, Term.tail, columnRef, callEnd_nil]
  | integer numeral => cases hterm
  | call function args =>
      have hshape : function.shape = .spread (String.ofList function.chars) := eq_of_beq hkeeps
      obtain ⟨piece, others, hcons⟩ := List.exists_cons_of_ne_nil args.pieces_ne_nil
      rw [Term.pieces, hcons, openFirst] at hpieces
      obtain ⟨rfl, rfl⟩ := List.cons.inj hpieces
      rw [Term.converted, hshape, hcons, write_spread, Term.tail]
      simp

/-- A name that is not kept begins otherwise than the converted expression, or it is missing
there. -/
theorem Term.converted_of_not_keepsName {term : Term} (hkeeps : term.keepsName = false)
    {first : List Char} {pieces : List (List Char)} (hpieces : term.pieces = first :: pieces) :
    (∀ rest other, first ++ rest ≠ term.converted ++ other) ∨
      ∃ opening piece, opening ≠ [] ∧ first = opening ++ piece ∧
        term.converted = piece ++ term.tail := by
  cases term with
  | column name => cases hkeeps
  | integer numeral => cases hkeeps
  | call function args =>
      obtain ⟨piece, others, hcons⟩ := List.exists_cons_of_ne_nil args.pieces_ne_nil
      rw [Term.pieces, hcons, openFirst] at hpieces
      obtain ⟨rfl, rfl⟩ := List.cons.inj hpieces
      rcases function.shape_cases with hspread | ⟨-, hdual⟩ | ⟨-, hopening, hhead⟩
      · rw [Term.keepsName, hspread, beq_self_eq_true] at hkeeps
        cases hkeeps
      · refine Or.inr ⟨function.chars ++ ['('], piece, by simp, rfl, ?_⟩
        rw [Term.converted, hdual, hcons, write_dual, Term.tail]
      · refine Or.inl fun rest other heq => hhead ?_
        rw [Term.converted, hcons, write_zero hopening] at heq
        obtain ⟨c, letters, hchars⟩ := List.exists_cons_of_ne_nil function.chars_ne_nil
        cases htext : function.shape.opening with
        | nil =>
            rw [htext] at hopening
            cases hopening
        | cons d text =>
            rw [hchars, htext] at heq
            rw [hchars, (List.cons.inj heq).1]
            rfl

theorem append_append_ne {opening piece : List Char} {c : Char} (hne : opening ≠ [])
    (hc : c ∉ opening ++ piece) (rest other : List Char) :
    opening ++ piece ++ rest ≠ piece ++ c :: other := by
  intro heq
  have hlonger := List.length_pos_iff.mpr hne
  rcases List.append_eq_append_iff.mp heq with ⟨middle, hshorter, -⟩ | ⟨middle, hmiddle, hrest⟩
  · have hlength := congrArg List.length hshorter
    simp only [List.length_append] at hlength
    omega
  · cases middle with
    | nil =>
        have hlength := congrArg List.length hmiddle
        simp only [List.length_append, List.length_nil] at hlength
        omega
    | cons d middle =>
        obtain rfl := (List.cons.inj hrest).1
        rw [hmiddle] at hc
        simp at hc

/-- An argument is cut the way it is converted exactly if its name is kept and the call goes on in
the plain way, with the pieces as well as with the arguments. -/
theorem Term.cut_iff {term : Term} (hterm : term.isInteger = false) {first : List Char}
    {pieces : List (List Char)} (hpieces : term.pieces = first :: pieces) {shape : CallShape}
    (hregular : shape.isRegular = true) (count : Nat) {others : List (List Char)}
    (hothers : ∀ other ∈ others, startsArgument other = true) :
    first ++ shape.write (count + 1) pieces ++ (term.tail ++ callEnd others) =
        term.converted ++ shape.write (count + 1) others ↔
      term.keepsName = true ∧ shape.continues (count + 1) pieces.length = true ∧
        shape.continues (count + 1) others.length = true := by
  -- What follows an argument is no part of it.
  have hnext : ∃ c rest, term.tail ++ shape.write (count + 1) others = c :: rest ∧
      inPiece c = false ∧ c ≠ '.' := by
    have htail := term.head?_tail
    cases hcons : term.tail with
    | nil => exact exists_write_eq_cons hregular count others
    | cons c tail =>
        rw [hcons] at htail
        refine ⟨c, _, rfl, ?_⟩
        rcases htail c rfl with rfl | rfl
        · decide
        · decide
  obtain ⟨c, rest, hnext, hc, hstop⟩ := hnext
  cases hkeeps : term.keepsName with
  | false =>
      refine iff_of_false (fun heq => ?_) (by simp)
      rw [List.append_assoc] at heq
      rcases term.converted_of_not_keepsName hkeeps hpieces with
        hbegins | ⟨opening, piece, hne, rfl, hmissing⟩
      · exact hbegins _ _ heq
      · have hmem : c ∉ opening ++ piece := by
          intro hmem
          rw [term.inPiece_of_mem _ (by rw [hpieces]; exact List.mem_cons_self) c hmem] at hc
          cases hc
        rw [hmissing, List.append_assoc piece, hnext] at heq
        exact append_append_ne hne hmem _ _ heq
  | true =>
      have hpiecesStart : ∀ piece ∈ pieces, startsArgument piece = true := by
        intro piece hpiece
        refine startsArgument_of_startsWord (term.startsWord_of_mem_pieces piece ?_)
        rw [hpieces]
        exact List.mem_cons_of_mem first hpiece
      rw [term.converted_of_keepsName hterm hkeeps hpieces, List.append_assoc, List.append_assoc,
        List.append_cancel_left_eq, List.append_assoc]
      constructor
      · intro heq
        have hplain := continues_of_write_append hregular hpiecesStart
          (by rw [hnext]; simpa using hstop) heq
        rw [write_of_continues hplain] at heq
        have hrest := List.append_cancel_left (List.append_cancel_left heq)
        refine ⟨rfl, hplain, ?_⟩
        refine @continues_of_write_append shape hregular others hothers count [] [] (by simp) ?_
        rw [hrest]
      · rintro ⟨-, hplain, hfurther⟩
        rw [write_of_continues hplain, write_of_continues hfurther]

/-! ## Composition -/

/-- Whether the output for a call is what its function becomes with its arguments converted. -/
def Composes (function : FunctionName) (args : Arguments) (output : List Char) : Prop :=
  functionCall? (String.ofList function.chars)
      (args.terms.map fun term => String.ofList (convertExpression (term.write false))) =
    some (String.ofList output)

theorem Arguments.terms_ne_nil (args : Arguments) : args.terms ≠ [] := by
  cases args with
  | one term => exact List.cons_ne_nil _ _
  | more term rest => exact List.cons_ne_nil _ _

theorem composes_iff {function : FunctionName} {args : Arguments} {output : List Char} :
    Composes function args output ↔
      output = function.shape.write 0 (args.terms.map Term.converted) := by
  have hne : args.terms.map Term.converted ≠ [] := by simp [args.terms_ne_nil]
  have hcall := functionCall?_eq function.word hne
  rw [List.map_map] at hcall
  have hconverted :
      (args.terms.map fun term => String.ofList (convertExpression (term.write false))) =
        args.terms.map (String.ofList ∘ Term.converted) :=
    List.map_congr_left fun term _ => congrArg String.ofList term.convertExpression_write
  rw [Composes, hconverted, hcall, Option.some_inj, String.ofList_inj, eq_comm]
  rfl

section Cut

variable {function : FunctionName} {args : Arguments} {leading : List Numeral} {term : Term}
  {rest : List Term}

theorem Arguments.Cut.map_converted (hcut : args.Cut leading term rest) :
    args.terms.map Term.converted =
      leading.map Numeral.chars ++ term.converted :: rest.map Term.converted := by
  rw [hcut.terms, List.map_append, List.map_map, List.map_cons]
  rfl

/-- A function whose call is more than its first argument composes exactly if the argument that
is cut keeps its name and the call goes on behind it in the plain way. -/
theorem Arguments.Cut.write_iff (hcut : args.Cut leading term rest)
    (hdual : String.ofList function.chars ≠ "Dual") :
    function.shape.write 0 args.pieces ++ args.tail =
        function.shape.write 0 (args.terms.map Term.converted) ↔
      term.keepsName = true ∧ function.shape.reaches 0 leading.length = true ∧
        function.shape.continues (leading.length + 1) (term.pieces.length - 1) = true ∧
        function.shape.continues (leading.length + 1) rest.length = true := by
  obtain ⟨hpieces, htail⟩ := hcut.pieces_tail
  obtain ⟨first, others, hcons⟩ := List.exists_cons_of_ne_nil term.pieces_ne_nil
  rw [hcut.map_converted, hpieces, htail, hcons]
  cases hreaches : function.shape.reaches 0 leading.length with
  | false =>
      -- The arguments that differ are dropped, but the tail is not.
      rw [← List.length_map Numeral.chars] at hreaches
      rw [write_append_of_not_reaches hreaches first term.converted others
        (rest.map Term.converted)]
      refine iff_of_false (fun heq => ?_) (by simp)
      exact callEnd_ne_nil _ (List.append_eq_nil_iff.mp (List.append_right_eq_self.mp heq)).2
  | true =>
      rw [← List.length_map Numeral.chars] at hreaches
      obtain ⟨front, hfront⟩ := write_append_of_reaches hreaches
      have hstart : ∀ other ∈ rest.map Term.converted, startsArgument other = true :=
        List.forall_mem_map.mpr fun other _ => other.startsArgument_converted
      have hplain := Term.cut_iff hcut.marked hcons (FunctionName.isRegular_shape hdual)
        leading.length hstart
      rw [hfront, hfront, List.length_map, Nat.zero_add, List.append_assoc,
        List.append_cancel_left_eq, hplain, List.length_map, List.length_cons, Nat.add_sub_cancel]
      simp

/-- A function that is dropped around its first argument composes exactly if that argument is cut
and keeps its name, and what is left over of it and of the others reads the same. -/
theorem Arguments.Cut.write_dual_iff (hcut : args.Cut leading term rest)
    (hdual : String.ofList function.chars = "Dual") :
    function.shape.write 0 args.pieces ++ args.tail =
        function.shape.write 0 (args.terms.map Term.converted) ↔
      leading = [] ∧ term.keepsName = true ∧
        term.tail ++ callEnd (rest.map Term.converted) =
          callEnd term.pieces.tail ++ term.tail := by
  have hshape : function.shape = .limited [""] [""] := by
    rw [FunctionName.shape, hdual]
    rfl
  obtain ⟨hpieces, htail⟩ := hcut.pieces_tail
  obtain ⟨first, others, hcons⟩ := List.exists_cons_of_ne_nil term.pieces_ne_nil
  rw [hcut.map_converted, hpieces, htail, hcons, hshape]
  cases leading with
  | cons numeral leading =>
      rw [List.map_cons, List.cons_append, List.cons_append, write_dual, write_dual]
      refine iff_of_false (fun heq => ?_) (by simp)
      exact callEnd_ne_nil _ (List.append_eq_nil_iff.mp (List.append_right_eq_self.mp heq)).2
  | nil =>
      rw [List.map_nil, List.nil_append, List.nil_append, write_dual, write_dual]
      cases hkeeps : term.keepsName with
      | true =>
          rw [term.converted_of_keepsName hcut.marked hkeeps hcons, List.append_cancel_left_eq]
          simp
      | false =>
          refine iff_of_false (fun heq => ?_) (by simp)
          rcases term.converted_of_not_keepsName hkeeps hcons with
            hbegins | ⟨opening, piece, hne, rfl, hmissing⟩
          · exact hbegins (term.tail ++ callEnd (rest.map Term.converted)) [] (by simpa using heq)
          · have hlength := congrArg List.length heq
            have hlonger := List.length_pos_iff.mpr hne
            rw [hmissing] at hlength
            simp only [List.length_append] at hlength
            omega

end Cut

/-- The calls that compose. -/
inductive Composable (function : FunctionName) (args : Arguments) : Prop
  /-- All arguments are integers. -/
  | integers (integers : ∀ term ∈ args.terms, term.isInteger = true)
  /-- The argument that is cut keeps its name, and the call goes on behind it in the plain way,
  with its further pieces as well as with the further arguments. -/
  | plain (leading : List Numeral) (term : Term) (rest : List Term)
      (function_ne : String.ofList function.chars ≠ "Dual") (cut : args.Cut leading term rest)
      (keepsName : term.keepsName = true)
      (reaches : function.shape.reaches 0 leading.length = true)
      (pieces : function.shape.continues (leading.length + 1) (term.pieces.length - 1) = true)
      (further : function.shape.continues (leading.length + 1) rest.length = true)
  /-- The call is its first argument alone. That one is cut and keeps its name, and what is left
  over of it and of the others reads the same. -/
  | dual (term : Term) (rest : List Term)
      (function_eq : String.ofList function.chars = "Dual") (cut : args.Cut [] term rest)
      (keepsName : term.keepsName = true)
      (same : term.tail ++ callEnd (rest.map Term.converted) =
        callEnd term.pieces.tail ++ term.tail)

theorem composable_iff {function : FunctionName} {args : Arguments} :
    Composable function args ↔ function.shape.write 0 args.pieces ++ args.tail =
      function.shape.write 0 (args.terms.map Term.converted) := by
  constructor
  · intro h
    cases h with
    | integers hintegers =>
        obtain ⟨hpieces, htail⟩ := Arguments.cut_of_integers hintegers
        rw [hpieces, htail, List.append_nil]
    | plain leading term rest hdual hcut hkeeps hreaches hpieces hfurther =>
        exact (hcut.write_iff hdual).mpr ⟨hkeeps, hreaches, hpieces, hfurther⟩
    | dual term rest hdual hcut hkeeps hsame =>
        exact (hcut.write_dual_iff hdual).mpr ⟨rfl, hkeeps, hsame⟩
  · intro heq
    rcases args.integers_or_cut with hintegers | ⟨leading, term, rest, hcut⟩
    · exact .integers hintegers
    · by_cases hdual : String.ofList function.chars = "Dual"
      · obtain ⟨rfl, hkeeps, hsame⟩ := (hcut.write_dual_iff hdual).mp heq
        exact .dual term rest hdual hcut hkeeps hsame
      · obtain ⟨hkeeps, hreaches, hpieces, hfurther⟩ := (hcut.write_iff hdual).mp heq
        exact .plain leading term rest hdual hcut hkeeps hreaches hpieces hfurther

/-- What is known of the output for a call. -/
structure CallRun (function : FunctionName) (args : Arguments) (output : List Char) : Prop where
  /-- The function is given the pieces before the cut, and what stands behind it follows. -/
  given : ∃ front, functionCall? (String.ofList function.chars) (args.pieces.map String.ofList) =
    some (String.ofList front) ∧ output = front ++ args.tail
  /-- The output is what the function becomes with its arguments converted exactly for the calls
  that are listed. -/
  composes_iff : Composes function args output ↔ Composable function args

/-- Every call is converted as a `CallRun` says. -/
theorem callRun_of_convertExpression (function : FunctionName) (args : Arguments) :
    CallRun function args (convertExpression ((Term.call function args).write false)) := by
  rw [Term.convertExpression_write, Term.converted]
  refine ⟨?_, ?_⟩
  · exact ⟨_, functionCall?_eq function.word args.pieces_ne_nil, rfl⟩
  · rw [composes_iff, composable_iff]

/-- The function `Upper`. -/
def upperFunction : FunctionName :=
  ⟨['U', 'p', 'p', 'e', 'r'], by decide, by decide⟩

/-- The function `Trim`. -/
def trimFunction : FunctionName :=
  ⟨['T', 'r', 'i', 'm'], by decide, by decide⟩

/-- The call `Trim(a)`. -/
def trimmedColumn : Term :=
  .call trimFunction (.one (.column ⟨['a'], rfl, rfl, rfl⟩))

/-- The inner call is left as it is. -/
theorem callRun_of_upper_trim :
    (Term.call upperFunction (.one trimmedColumn)).write false = "Upper(Trim(a))".toList ∧
      convertExpression "Upper(Trim(a))".toList = "upper(Trim(col('a')))".toList ∧
      ¬Composes upperFunction (.one trimmedColumn)
        (convertExpression "Upper(Trim(a))".toList) := by
  have htext : (Term.call upperFunction (.one trimmedColumn)).write false =
      "Upper(Trim(a))".toList := by decide
  have hrun := callRun_of_convertExpression upperFunction (.one trimmedColumn)
  rw [htext] at hrun
  refine ⟨htext, by decide, fun hcomposes => ?_⟩
  have hkeeps : trimmedColumn.keepsName = false := by decide
  cases hrun.composes_iff.mp hcomposes with
  | integers hintegers => exact absurd (hintegers trimmedColumn List.mem_cons_self) (by decide)
  | plain leading term rest hdual hcut hkept =>
      cases leading with
      | nil =>
          obtain ⟨rfl, -⟩ := List.cons.inj hcut.terms
          rw [hkeeps] at hkept
          cases hkept
      | cons numeral leading => cases (List.cons.inj hcut.terms).1
  | dual term rest hdual => exact absurd hdual (by decide)

end QlikMigration.Spark
