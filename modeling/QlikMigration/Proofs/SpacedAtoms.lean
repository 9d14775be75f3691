import QlikMigration.Proofs.CallTrees
import QlikMigration.Proofs.InlineRows

/-!
# Expressions converted atom by atom

The atoms of an expression without calls stand with single spaces between
them. Every pass of the conversion but one looks for texts in which no space
occurs, and so changes each atom on its own. The pass that replaces connectives
looks for a word between two spaces. It finds every atom that is such a word,
unless it stands at an end of the row, where a space is missing, or next to
another one, where both would need the same space.
-/

namespace QlikMigration.Spark

open QlikMigration.Text QlikMigration.Script
open Spelling (spaced respell respelled replaceConnectives programPairs Replacing
  replacing_programPairs)

/-! ## Atoms -/

/-- The signs between operands: the comparisons of a script, those that only a program has, and
the signs of arithmetic. -/
inductive Sign
  | compare (operator : Operator)
  | doubled
  | excluded
  | plus
  | minus
  | times
  | divide

/-- The parts of an expression without calls and literals. A connective is written in capitals or
in small letters. -/
inductive Atom
  | column (name : ColumnName)
  | number (numeral : Numeral)
  | sign (mark : Sign)
  | connective (joint : Connective) (small : Bool)

/-- A sign as it is written. -/
def Sign.written : Sign → List Char
  | compare operator => operator.written
  | doubled => ['=', '=']
  | excluded => ['!', '=']
  | plus => ['+']
  | minus => ['-']
  | times => ['*']
  | divide => ['/']

/-- A sign in a program: the comparisons of a script change, and all others are kept. -/
def Sign.converted : Sign → List Char
  | compare operator => operator.symbol
  | sign => sign.written

namespace Atom

/-- An atom as it is written. -/
def written : Atom → List Char
  | column name => name.chars
  | number numeral => numeral.chars
  | sign mark => mark.written
  | connective joint small => if small then joint.word.map Char.toLower else joint.word

/-- An atom in a program. -/
def converted : Atom → List Char
  | column name => columnRef name.chars
  | number numeral => numeral.chars
  | sign mark => mark.converted
  | connective joint _ => joint.symbol

/-- Whether an atom is a connective. -/
def isConnective : Atom → Bool
  | connective _ _ => true
  | _ => false

end Atom

/-- The members of a kind stand neither at an end of a row nor side by side. -/
structure Interspersed {α : Type} (kind : α → Prop) (row : List α) : Prop where
  first : ∀ member ∈ row.head?, ¬ kind member
  last : ∀ member ∈ row.getLast?, ¬ kind member
  apart : row.IsChain fun member next => ¬ kind member ∨ ¬ kind next

namespace Interspersed

variable {α β : Type} {kind : α → Prop} {row : List α}

theorem mono {other : α → Prop} (h : Interspersed kind row)
    (hother : ∀ member, other member → kind member) : Interspersed other row where
  first member hmember := mt (hother member) (h.first member hmember)
  last member hmember := mt (hother member) (h.last member hmember)
  apart := h.apart.imp fun member next hor => hor.imp (mt (hother member)) (mt (hother next))

/-- A change that makes no new members of a kind keeps them apart. -/
theorem map {other : β → Prop} {change : α → β} (h : Interspersed kind row)
    (hchange : ∀ member, other (change member) → kind member) :
    Interspersed other (row.map change) := by
  have hrow : Interspersed (fun member => other (change member)) row := h.mono hchange
  refine ⟨?_, ?_, (List.isChain_map change).mpr hrow.apart⟩
  · intro member hmember
    rw [List.head?_map] at hmember
    obtain ⟨before, hbefore, rfl⟩ := Option.map_eq_some_iff.mp hmember
    exact hrow.first before hbefore
  · intro member hmember
    rw [List.getLast?_map] at hmember
    obtain ⟨before, hbefore, rfl⟩ := Option.map_eq_some_iff.mp hmember
    exact hrow.last before hbefore

end Interspersed

/-! ## Passes that do not reach over a space -/

theorem intercalate_space_cons (text next : List Char) (texts : List (List Char)) :
    [' '].intercalate (text :: next :: texts) =
      text ++ ' ' :: [' '].intercalate (next :: texts) := by
  rw [List.intercalate_cons_cons, List.append_assoc, List.singleton_append]

/-- A pass that treats apart what stands on the two sides of a space treats each text of a row
on its own. -/
theorem pass_intercalate {pass : List Char → List Char} {texts : List (List Char)}
    (hnil : pass [] = []) (hcut : ∀ front rest, front ++ ' ' :: rest <:+ [' '].intercalate texts →
      pass (front ++ ' ' :: rest) = pass front ++ ' ' :: pass rest) :
    pass ([' '].intercalate texts) = [' '].intercalate (texts.map pass) := by
  induction texts with
  | nil => exact hnil
  | cons text texts ih =>
      cases texts with
      | nil => rw [List.map_singleton, List.intercalate_singleton, List.intercalate_singleton]
      | cons next texts =>
          rw [intercalate_space_cons] at hcut
          have hsuffix : [' '].intercalate (next :: texts) <:+
              text ++ ' ' :: [' '].intercalate (next :: texts) :=
            (List.suffix_cons ' ' _).trans (List.suffix_append text _)
          have hlater := ih fun front rest hpart => hcut front rest (hpart.trans hsuffix)
          rw [intercalate_space_cons, hcut text _ (List.suffix_refl _), hlater]
          exact (intercalate_space_cons _ _ _).symm

theorem doubleEquals_intercalate (texts : List (List Char)) :
    doubleEquals ([' '].intercalate texts) = [' '].intercalate (texts.map doubleEquals) :=
  pass_intercalate rfl fun front rest _ => doubleEquals_append_cons (by decide) front rest

theorem replace_unequal_intercalate (texts : List (List Char)) :
    replace ['<', '>'] ['!', '='] ([' '].intercalate texts) =
      [' '].intercalate (texts.map (replace ['<', '>'] ['!', '='])) :=
  pass_intercalate rfl fun front rest _ =>
    replace_append_cons (List.cons_ne_nil _ _) (by decide) front rest

/-- A parenthesis that is not in a text does not follow its blanks. -/
theorem isPrefixOf_skipBlanks_of_not_mem {cs : List Char} (h : '(' ∉ cs) :
    ['('].isPrefixOf (skipBlanks cs) = false :=
  isPrefixOf_singleton_eq_false fun hmem =>
    h ((List.dropWhile_suffix isBlank).subset (List.mem_of_mem_head? hmem))

theorem wrapWords_intercalate {texts : List (List Char)} (h : '(' ∉ [' '].intercalate texts) :
    wrapWords [] ([' '].intercalate texts) = [' '].intercalate (texts.map (wrapWords [])) := by
  refine pass_intercalate rfl fun front rest hpart => wrapWords_append_cons (by decide) ?_ front
  apply isPrefixOf_skipBlanks_of_not_mem
  exact fun hmem => h (hpart.subset (List.mem_append_right front hmem))

/-- Without parentheses and quotes, wrapping names is all that is done before connectives and
operators are replaced. -/
theorem convertCalls_wrapColumns {cs : List Char} (hopen : '(' ∉ cs) (hquote : '\'' ∉ cs)
    (hdouble : '"' ∉ cs) : convertCalls (wrapColumns cs) = wrapWords [] cs := by
  have hcallless : Callless cs := by
    rintro front c rest rfl
    exact absurd hopen (by simp)
  have hstart : ∀ c, c ∉ cs → [c].isPrefixOf (trim cs) = false := fun c hc =>
    isPrefixOf_singleton_eq_false fun hmem =>
      hc ((trim_isInfix cs).subset (List.mem_of_mem_head? hmem))
  have hunwrapped : isWrapped cs = false := by
    rw [isWrapped, hcallless.contains_col, hstart _ hquote, hstart _ hdouble]
    rfl
  have hcalls := @Callless.convertCalls_wrapWords cs hcallless [] rfl (by simp)
  rw [List.append_nil] at hcalls
  rw [wrapColumns, hunwrapped, if_neg Bool.false_ne_true, hcalls]
  exact List.append_nil _

/-! ## Connectives between spaces -/

section Connectives

variable {word mark : List Char} {texts : List (List Char)}

/-- At a space, a word between two spaces stands only if it is the text behind that space. -/
theorem isPrefixOf_spaced_intercalate (hword : ' ' ∉ word) {text : List Char} (hne : text ≠ word)
    (hspace : ∀ other ∈ text :: texts, ' ' ∉ other) :
    (spaced word).isPrefixOf (' ' :: [' '].intercalate (text :: texts)) = false := by
  rw [Bool.eq_false_iff, Ne, List.isPrefixOf_iff_prefix]
  rintro ⟨rest, hrest⟩
  have hcut : word ++ ' ' :: rest = [' '].intercalate (text :: texts) := by
    simpa [spaced] using hrest
  have hsplit := congrArg (List.splitOn ' ') hcut
  rw [List.splitOn_append_cons_self_of_not_mem hword,
    List.splitOn_intercalate _ hspace (List.cons_ne_nil text texts)] at hsplit
  exact hne (List.cons.inj hsplit).1.symm

/-- Behind a space, the texts that are the word are replaced one by one, if the last is another
one and no two of them stand side by side. -/
theorem replace_space_intercalate (hword : ' ' ∉ word) (hne : texts ≠ [])
    (hspace : ∀ text ∈ texts, ' ' ∉ text) (hlast : word ∉ texts.getLast?)
    (hapart : texts.IsChain fun text next => ¬ text = word ∨ ¬ next = word) :
    replace (spaced word) (spaced mark) (' ' :: [' '].intercalate texts) =
      ' ' :: [' '].intercalate (texts.map (respell word mark)) := by
  have hkept : ∀ text rest, ' ' ∉ text → replace (spaced word) (spaced mark) (text ++ rest) =
      text ++ replace (spaced word) (spaced mark) rest :=
    fun text rest htext => replace_append_of_not_mem htext rest
  induction texts with
  | nil => exact absurd rfl hne
  | cons text texts ih =>
      obtain ⟨htextSpace, hlater⟩ := List.forall_mem_cons.mp hspace
      cases texts with
      | nil =>
          have htext : text ≠ word := fun heq => hlast (heq ▸ rfl)
          have hlone := hkept text [] htextSpace
          rw [List.append_nil] at hlone
          rw [replace_cons (isPrefixOf_spaced_intercalate hword htext hspace), List.map_singleton,
            respell, if_neg htext, List.intercalate_singleton, hlone]
          simp [replace, replaceFrom]
      | cons next texts =>
          rw [List.getLast?_cons_cons] at hlast
          rw [List.isChain_cons_cons] at hapart
          have hrest := ih (List.cons_ne_nil next texts) hlater hlast hapart.2
          rw [List.map_cons, List.map_cons, intercalate_space_cons (respell word mark text),
            respell]
          by_cases htext : text = word
          · -- The word takes the space behind it, and the next text, which is another one, does
            -- without it.
            have hnext := hapart.1.resolve_left (fun h => h htext)
            rw [replace_cons (isPrefixOf_spaced_intercalate hword hnext hlater),
              List.cons_inj_right] at hrest
            have hwhole : ' ' :: [' '].intercalate (text :: next :: texts) =
                spaced word ++ [' '].intercalate (next :: texts) := by
              rw [intercalate_space_cons, htext]
              simp [spaced]
            rw [if_pos htext, hwhole, replace_self_append (spaced_ne_nil word), hrest,
              List.map_cons]
            simp [spaced]
          · rw [if_neg htext, replace_cons (isPrefixOf_spaced_intercalate hword htext hspace),
              intercalate_space_cons, hkept text _ htextSpace, hrest, List.map_cons]

/-- The texts that are the word are replaced one by one, if none of them stands at an end and no
two of them stand side by side. -/
theorem replace_intercalate (hword : ' ' ∉ word) (hspace : ∀ text ∈ texts, ' ' ∉ text)
    (h : Interspersed (· = word) texts) :
    replace (spaced word) (spaced mark) ([' '].intercalate texts) =
      [' '].intercalate (texts.map (respell word mark)) := by
  cases texts with
  | nil => rfl
  | cons text texts =>
      have hspaced :=
        @replace_space_intercalate word mark (text :: texts) hword (List.cons_ne_nil _ _)
        hspace (fun hmem => h.last word hmem rfl) h.apart
      rwa [replace_cons (isPrefixOf_spaced_intercalate hword (h.first text rfl) hspace),
        List.cons_inj_right] at hspaced

/-- All connectives are replaced text by text, if none of them stands at an end and no two of them
stand side by side. -/
theorem replaceConnectives_intercalate {pairs : List (List Char × List Char)}
    (hpairs : Replacing pairs)
    (hspace : ∀ text ∈ texts, ' ' ∉ text) (h : Interspersed (· ∈ connectiveWords) texts) :
    replaceConnectives pairs ([' '].intercalate texts) =
      [' '].intercalate (texts.map (respelled pairs)) := by
  induction pairs generalizing texts with
  | nil =>
      have hsame : respelled [] = id := rfl
      rw [hsame, List.map_id]
      rfl
  | cons pair pairs ih =>
      obtain ⟨⟨hword, hmark⟩, hlater⟩ := List.forall_mem_cons.mp hpairs
      have hwords : ∀ word ∈ connectiveWords, ' ' ∉ word := by decide
      have hmarks : ∀ mark ∈ connectiveMarks, ' ' ∉ mark ∧ mark ∉ connectiveWords := by decide
      have hstep : replace (spaced pair.1) (spaced pair.2) ([' '].intercalate texts) =
          [' '].intercalate (texts.map (respell pair.1 pair.2)) :=
        replace_intercalate (hwords pair.1 hword) hspace (h.mono fun text heq => heq ▸ hword)
      have hnext : ∀ text ∈ texts.map (respell pair.1 pair.2), ' ' ∉ text := by
        refine List.forall_mem_map.mpr fun text htext => ?_
        rw [respell]
        split
        · exact (hmarks pair.2 hmark).1
        · exact hspace text htext
      have happart : Interspersed (· ∈ connectiveWords) (texts.map (respell pair.1 pair.2)) := by
        refine h.map fun text hmem => ?_
        rw [respell] at hmem
        split at hmem
        · exact absurd hmem (hmarks pair.2 hmark).2
        · exact hmem
      rw [replaceConnectives, List.foldl_cons, hstep]
      refine (ih hlater hnext happart).trans ?_
      rw [List.map_map]
      rfl

end Connectives

/-! ## Atoms through the passes -/

/-- The characters of signs. -/
def signChars : List Char :=
  operatorChars ++ ['+', '-', '*', '/']

theorem Sign.mem_signChars {mark : Sign} {c : Char} (hc : c ∈ mark.written) : c ∈ signChars := by
  have hall : mark.written.all signChars.contains = true := by
    cases mark with
    | compare operator => cases operator <;> rfl
    | doubled | excluded | plus | minus | times | divide => rfl
  exact List.contains_iff_mem.mp (List.all_eq_true.mp hall c hc)

namespace Atom

/-- Atoms are made of the characters of words and signs. -/
theorem of_mem_written {atom : Atom} {c : Char} (hc : c ∈ atom.written) :
    isWord c = true ∨ c ∈ signChars := by
  cases atom with
  | column name => exact .inl (name.isWord_of_mem c hc)
  | number numeral => exact .inl (numeral.isWord_of_mem c hc)
  | sign mark => exact .inr (Sign.mem_signChars hc)
  | connective joint small =>
      have hall : (connective joint small).written.all isWord = true := by
        cases joint <;> cases small <;> decide
      exact .inl (List.all_eq_true.mp hall c hc)

theorem not_mem_written {c : Char} (hword : isWord c = false) (hsign : c ∉ signChars)
    (atom : Atom) : c ∉ atom.written := by
  intro hc
  rcases of_mem_written hc with hletter | hmark
  · exact ne_of_isWord hletter hword rfl
  · exact hsign hmark

/-- An atom when names are wrapped. -/
def wrapped : Atom → List Char
  | column name => columnRef name.chars
  | atom => atom.written

theorem wrapWords_written (atom : Atom) : wrapWords [] atom.written = atom.wrapped := by
  have hword : ∀ word : List Char, (∀ c ∈ word, isWord c = true) →
      wrapWords [] word = wrapWord word [] := by
    intro word hletters
    have happend := @wrapWords_append word [] hletters rfl
    rw [List.append_nil] at happend
    rw [happend]
    exact List.append_nil _
  cases atom with
  | column name =>
      rw [written, hword _ name.isWord_of_mem, wrapWord, name.plain, name.unconnective]
      rfl
  | number numeral =>
      rw [written, hword _ numeral.isWord_of_mem, wrapWord, numeral.not_startsPlain]
      rfl
  | sign mark =>
      cases mark with
      | compare operator => cases operator <;> rfl
      | doubled | excluded | plus | minus | times | divide => rfl
  | connective joint small => cases joint <;> cases small <;> rfl

theorem space_not_mem_wrapped (atom : Atom) : ' ' ∉ atom.wrapped := by
  have hwritten : ' ' ∉ atom.written := not_mem_written (by decide) (by decide) atom
  cases atom with
  | column name =>
      have hname : ' ' ∉ name.chars := hwritten
      simp [wrapped, columnRef, hname]
  | number _ | sign _ | connective _ _ => exact hwritten

theorem isConnective_of_wrapped {atom : Atom} (hmem : atom.wrapped ∈ connectiveWords) :
    atom.isConnective = true := by
  obtain ⟨hletters, hplain, -⟩ := of_mem_connectiveWords _ hmem
  cases atom with
  | column name =>
      have hopen : '(' ∈ columnRef name.chars := by simp [columnRef]
      exact absurd (hletters '(' hopen) (by decide)
  | number numeral =>
      exact absurd (numeral.not_startsPlain.symm.trans hplain) Bool.false_ne_true
  | sign mark =>
      have hfirst : startsPlain mark.written = false := by
        cases mark with
        | compare operator => cases operator <;> rfl
        | doubled | excluded | plus | minus | times | divide => rfl
      exact absurd (hfirst.symm.trans hplain) Bool.false_ne_true
  | connective _ _ => rfl

end Atom

theorem respelled_of_not_mem {pairs : List (List Char × List Char)} (hpairs : Replacing pairs)
    {text : List Char} (htext : text ∉ connectiveWords) : respelled pairs text = text := by
  induction pairs with
  | nil => rfl
  | cons pair pairs ih =>
      obtain ⟨⟨hword, -⟩, hlater⟩ := List.forall_mem_cons.mp hpairs
      have hne : text ≠ pair.1 := fun heq => htext (heq ▸ hword)
      rw [respelled, List.foldl_cons, respell, if_neg hne]
      exact ih hlater

/-- A text is left alone if it is no connective and has no character of an operator. -/
theorem replaced_eq_self {text : List Char} (hword : text ∉ connectiveWords)
    (hoperator : ∀ c ∈ text, c ∉ operatorChars) :
    replace ['<', '>'] ['!', '='] (doubleEquals (respelled programPairs text)) = text := by
  have hequals : '=' ∉ text := fun hmem => hoperator '=' hmem (by decide)
  have hless : '<' ∉ text := fun hmem => hoperator '<' hmem (by decide)
  have hkept : replace ['<', '>'] ['!', '='] (text ++ []) = text ++ [] :=
    replace_append_of_not_mem hless []
  rw [List.append_nil] at hkept
  rw [respelled_of_not_mem replacing_programPairs hword, doubleEquals_eq_self hequals, hkept]

/-- A wrapped atom becomes the atom of a program when connectives and operators are replaced. -/
theorem Atom.convert_wrapped (atom : Atom) :
    replace ['<', '>'] ['!', '='] (doubleEquals (respelled programPairs atom.wrapped)) =
      atom.converted := by
  cases atom with
  | column name =>
      refine replaced_eq_self (fun hmem => ?_) fun c hc => ?_
      · cases @isConnective_of_wrapped (.column name) hmem
      · exact @Spelling.Lawful.not_mem_operatorChars_of_mem_text Spelling.script.wrap
          Spelling.lawful_script.wrap (.column name) rfl c hc
  | number numeral =>
      refine replaced_eq_self (fun hmem => ?_) fun c hc => ?_
      · cases @isConnective_of_wrapped (.number numeral) hmem
      · exact not_mem_operatorChars_of_isWord (numeral.isWord_of_mem c hc)
  | sign mark =>
      cases mark with
      | compare operator => cases operator <;> rfl
      | doubled | excluded | plus | minus | times | divide => rfl
  | connective joint small => cases joint <;> cases small <;> rfl

theorem Atom.not_mem_intercalate {c : Char} (hword : isWord c = false) (hsign : c ∉ signChars)
    (hspace : c ≠ ' ') (atoms : List Atom) : c ∉ [' '].intercalate (atoms.map Atom.written) := by
  intro hmem
  rcases mem_intercalate hmem with hseparator | ⟨text, htext, hc⟩
  · exact hspace (List.mem_singleton.mp hseparator)
  · obtain ⟨atom, -, rfl⟩ := List.mem_map.mp htext
    exact atom.not_mem_written hword hsign hc

/-- An expression without calls is converted atom by atom, if no connective stands at an end or
next to another one. -/
theorem convertExpression_of_interspersed {atoms : List Atom}
    (h : Interspersed (fun atom : Atom => atom.isConnective) atoms) :
    convertExpression ([' '].intercalate (atoms.map Atom.written)) =
      [' '].intercalate (atoms.map Atom.converted) := by
  have hopen : '(' ∉ [' '].intercalate (atoms.map Atom.written) :=
    Atom.not_mem_intercalate (by decide) (by decide) (by decide) atoms
  have hquote : '\'' ∉ [' '].intercalate (atoms.map Atom.written) :=
    Atom.not_mem_intercalate (by decide) (by decide) (by decide) atoms
  have hdouble : '"' ∉ [' '].intercalate (atoms.map Atom.written) :=
    Atom.not_mem_intercalate (by decide) (by decide) (by decide) atoms
  have hwrapped : (atoms.map Atom.written).map (wrapWords []) = atoms.map Atom.wrapped := by
    rw [List.map_map]
    exact List.map_congr_left fun atom _ => atom.wrapWords_written
  have hspace : ∀ text ∈ atoms.map Atom.wrapped, ' ' ∉ text :=
    List.forall_mem_map.mpr fun atom _ => atom.space_not_mem_wrapped
  have hconnectives : Interspersed (· ∈ connectiveWords) (atoms.map Atom.wrapped) :=
    h.map fun _ => Atom.isConnective_of_wrapped
  rw [Spelling.convertExpression_eq, convertCalls_wrapColumns hopen hquote hdouble,
    wrapWords_intercalate hopen, hwrapped,
    replaceConnectives_intercalate replacing_programPairs hspace hconnectives,
    doubleEquals_intercalate,
    replace_unequal_intercalate, List.map_map, List.map_map, List.map_map]
  exact congrArg ([' '].intercalate) (List.map_congr_left fun atom _ => atom.convert_wrapped)

/-- Atoms of all kinds, with a connective in capitals and one in small letters. -/
def priceAtoms : List Atom :=
  [.column ⟨['n', 'e', 't'], rfl, rfl, rfl⟩, .sign .plus,
    .number ⟨['0', '1'], List.cons_ne_nil _ _, rfl⟩, .sign (.compare .atLeast),
    .number ⟨['5'], List.cons_ne_nil _ _, rfl⟩, .connective .both false,
    .column ⟨['a', 'n', 'd', 'y'], rfl, rfl, rfl⟩, .sign (.compare .unequal),
    .column ⟨['_', 'b'], rfl, rfl, rfl⟩, .connective .either true,
    .column ⟨['o', 'r', '2'], rfl, rfl, rfl⟩, .sign (.compare .equal),
    .number ⟨['7'], List.cons_ne_nil _ _, rfl⟩]

theorem convertExpression_of_priceAtoms :
    Interspersed (fun atom : Atom => atom.isConnective) priceAtoms ∧
      convertExpression "net + 01 >= 5 AND andy <> _b or or2 = 7".toList =
        "col('net') + 01 >= 5 & col('andy') != col('_b') | col('or2') == 7".toList := by
  have h : Interspersed (fun atom : Atom => atom.isConnective) priceAtoms :=
    ⟨by simp [priceAtoms, Atom.isConnective], by simp [priceAtoms, Atom.isConnective],
      by simp [priceAtoms, Atom.isConnective]⟩
  have hwritten : [' '].intercalate (priceAtoms.map Atom.written) =
      "net + 01 >= 5 AND andy <> _b or or2 = 7".toList := by decide
  have hconverted : [' '].intercalate (priceAtoms.map Atom.converted) =
      "col('net') + 01 >= 5 & col('andy') != col('_b') | col('or2') == 7".toList := by decide
  rw [← hwritten, ← hconverted]
  exact ⟨h, convertExpression_of_interspersed h⟩

end QlikMigration.Spark
