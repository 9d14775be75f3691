import QlikMigration.Proofs.CallShapes

/-!
# The parentheses of an expression

Converting an expression treats it as plain text: a call is cut at the nearest
closing parenthesis, its arguments at every comma, and nothing looks for the
parenthesis that belongs to another. Still no parenthesis is lost. Wrapping a
name brings in a pair around it, a renamed call brings in a pair before its own
opening parenthesis at most, and the other passes bring in none.

This is so for functions that are only renamed. The special functions and those
that wrap their first argument drop arguments or write some apart, so a call
that is cut in the middle of an argument may lose one of its parentheses.
-/

namespace QlikMigration.Spark

open QlikMigration.Text QlikMigration.Script
open Spelling (spaced replaceConnectives programPairs)

/-! ## Balance -/

/-- Whether a character is a parenthesis. -/
def isParenthesis (c : Char) : Bool :=
  c == '(' || c == ')'

/-- The parentheses of a text in their order. -/
def parentheses (cs : List Char) : List Char :=
  cs.filter isParenthesis

/-- Whether a text closes what it opens and so many parentheses besides. -/
def closesFrom : Nat → List Char → Bool
  | depth, [] => depth == 0
  | depth, c :: cs =>
    if c = '(' then closesFrom (depth + 1) cs
    else if c = ')' then depth != 0 && closesFrom (depth - 1) cs
    else closesFrom depth cs

/-- Whether the parentheses of a text are balanced. -/
def isBalanced (cs : List Char) : Bool :=
  closesFrom 0 cs

theorem parentheses_append (front rest : List Char) :
    parentheses (front ++ rest) = parentheses front ++ parentheses rest :=
  List.filter_append front rest

theorem parentheses_cons (c : Char) (cs : List Char) :
    parentheses (c :: cs) = parentheses [c] ++ parentheses cs :=
  parentheses_append [c] cs

theorem parentheses_opening (cs : List Char) : parentheses ('(' :: cs) = '(' :: parentheses cs :=
  rfl

theorem parentheses_closing (cs : List Char) : parentheses (')' :: cs) = ')' :: parentheses cs :=
  rfl

theorem parentheses_other {c : Char} (hc : isParenthesis c = false) (cs : List Char) :
    parentheses (c :: cs) = parentheses cs :=
  List.filter_cons_of_neg (Bool.eq_false_iff.mp hc)

/-- The characters of a class to which no parenthesis belongs have none. -/
theorem parentheses_eq_nil {p : Char → Bool} (hopening : p '(' = false) (hclosing : p ')' = false)
    {cs : List Char} (h : ∀ c ∈ cs, p c = true) : parentheses cs = [] := by
  apply List.filter_eq_nil_iff.mpr
  intro c hc hparenthesis
  rcases Bool.or_eq_true_iff.mp hparenthesis with heq | heq
  · rw [← eq_of_beq heq, h c hc] at hopening
    cases hopening
  · rw [← eq_of_beq heq, h c hc] at hclosing
    cases hclosing

theorem parentheses_word {word : List Char} (hword : ∀ c ∈ word, isWord c = true) :
    parentheses word = [] :=
  parentheses_eq_nil (by decide) (by decide) hword

/-- Only the parentheses of a text matter for its balance. -/
theorem closesFrom_parentheses (depth : Nat) (cs : List Char) :
    closesFrom depth (parentheses cs) = closesFrom depth cs := by
  induction cs generalizing depth with
  | nil => rfl
  | cons c cs ih =>
      by_cases hopening : c = '('
      · subst hopening
        rw [parentheses_opening, closesFrom, closesFrom, if_pos rfl, if_pos rfl, ih]
      · by_cases hclosing : c = ')'
        · subst hclosing
          rw [parentheses_closing, closesFrom, closesFrom, if_neg hopening, if_neg hopening,
            if_pos rfl, if_pos rfl, ih]
        · have hc : isParenthesis c = false := by simp [isParenthesis, hopening, hclosing]
          rw [parentheses_other hc, closesFrom, if_neg hopening, if_neg hclosing, ih]

/-! ## Inserted pairs -/

/-- The second row is the first one with complete pairs inserted. -/
inductive PairsInserted : List Char → List Char → Prop
  | nil : PairsInserted [] []
  | keep (c : Char) {before after : List Char} (h : PairsInserted before after) :
      PairsInserted (c :: before) (c :: after)
  | insert {before after : List Char} (h : PairsInserted before after) :
      PairsInserted before ('(' :: ')' :: after)

/-- The second row is the first one with complete pairs inserted, each right before an opening
parenthesis and no two at the same place. -/
inductive PairsBefore : List Char → List Char → Prop
  | nil : PairsBefore [] []
  | keep (c : Char) {before after : List Char} (h : PairsBefore before after) :
      PairsBefore (c :: before) (c :: after)
  | insert {before after : List Char} (h : PairsBefore before after) :
      PairsBefore ('(' :: before) ('(' :: ')' :: '(' :: after)

section Rows

variable {before after later last : List Char}

theorem PairsBefore.refl (row : List Char) : PairsBefore row row := by
  induction row with
  | nil => exact .nil
  | cons c row ih => exact .keep c ih

theorem PairsBefore.append (h : PairsBefore before after) (hlater : PairsBefore later last) :
    PairsBefore (before ++ later) (after ++ last) := by
  induction h with
  | nil => exact hlater
  | keep c _ ih => exact .keep c ih
  | insert _ ih => exact .insert ih

namespace PairsInserted

theorem append_left (front : List Char) (h : PairsInserted before after) :
    PairsInserted (front ++ before) (front ++ after) := by
  induction front with
  | nil => exact h
  | cons c front ih => exact .keep c ih

/-- A pair that comes later stands before an opening parenthesis, so it does not come between
the two of a pair that is there. -/
theorem trans_before (h : PairsInserted before after) (hlater : PairsBefore after later) :
    PairsInserted before later := by
  induction h generalizing later with
  | nil =>
      cases hlater
      exact .nil
  | keep c _ ih =>
      cases hlater with
      | keep _ hrest => exact .keep c (ih hrest)
      | insert hrest => exact .insert (.keep '(' (ih hrest))
  | insert _ ih =>
      cases hlater with
      | keep _ hclosing =>
          cases hclosing with
          | keep _ hrest => exact .insert (ih hrest)
      | insert hclosing =>
          cases hclosing with
          | keep _ hrest => exact .insert (.insert (ih hrest))

theorem closesFrom_eq (h : PairsInserted before after) (depth : Nat) :
    closesFrom depth after = closesFrom depth before := by
  induction h generalizing depth with
  | nil => rfl
  | keep c _ ih => simp only [closesFrom, ih]
  | insert _ ih => simpa [closesFrom] using ih depth

end PairsInserted

end Rows

/-! ## Names -/

/-- Wrapping names brings in a pair for each of them. -/
theorem pairsInserted_wrapWords (cs : List Char) :
    PairsInserted (parentheses cs) (parentheses (wrapWords [] cs)) := by
  induction cs using word_induction with
  | nil => exact .nil
  | separator c cs hc ih =>
      rw [wrapWords_cons hc, parentheses_cons, parentheses_cons c (wrapWords [] cs)]
      exact ih.append_left _
  | word word cs hne hword hcs ih =>
      rw [wrapWords_append hword hcs, wrapWord_eq, parentheses_append, parentheses_append,
        parentheses_word hword, List.nil_append]
      split
      · have hcolumn : parentheses (columnRef word) = ['(', ')'] := by
          rw [columnRef, parentheses_append, parentheses_append, parentheses_word hword]
          rfl
        rw [hcolumn]
        exact .insert ih
      · rw [parentheses_word hword]
        exact ih

theorem pairsInserted_wrapColumns (cs : List Char) :
    PairsInserted (parentheses cs) (parentheses (wrapColumns cs)) := by
  rw [wrapColumns]
  split
  · simpa using PairsInserted.nil.append_left (parentheses cs)
  · exact pairsInserted_wrapWords cs

/-! ## Called names -/

/-- The names in a text that a parenthesis directly follows, where `word` is the part of a name
read so far. -/
def calledNamesFrom (word : List Char) : List Char → List String
  | [] => []
  | c :: rest =>
    if isWord c then calledNamesFrom (word ++ [c]) rest
    else if c = '(' ∧ word ≠ [] then String.ofList word :: calledNamesFrom [] rest
    else calledNamesFrom [] rest

/-- The names in a text that a parenthesis directly follows. -/
def calledNames (cs : List Char) : List String :=
  calledNamesFrom [] cs

section CalledNames

variable {word rest : List Char}

theorem calledNames_cons {c : Char} (hc : isWord c = false) (rest : List Char) :
    calledNames (c :: rest) = calledNames rest := by
  simp [calledNames, calledNamesFrom, hc]

theorem calledNamesFrom_append (hword : ∀ c ∈ word, isWord c = true) (start rest : List Char) :
    calledNamesFrom start (word ++ rest) = calledNamesFrom (start ++ word) rest := by
  induction word generalizing start with
  | nil => rw [List.nil_append, List.append_nil]
  | cons c word ih =>
      have hlater := ih (fun d hd => hword d (List.mem_cons_of_mem c hd)) (start ++ [c])
      rw [List.cons_append, calledNamesFrom, if_pos (hword c List.mem_cons_self), hlater,
        List.append_assoc, List.singleton_append]

/-- A word is called if a parenthesis directly follows it. -/
theorem calledNames_append (hword : ∀ c ∈ word, isWord c = true) (hne : word ≠ [])
    (hrest : startsWord rest = false) :
    calledNames (word ++ rest) =
      (if '(' ∈ rest.head? then [String.ofList word] else []) ++ calledNames rest := by
  rw [calledNames, calledNamesFrom_append hword, List.nil_append]
  cases rest with
  | nil => rfl
  | cons c rest =>
      have hc : isWord c = false := hrest
      rw [calledNames_cons hc, calledNamesFrom, hc, if_neg Bool.false_ne_true, List.head?_cons]
      by_cases hopen : c = '('
      · rw [if_pos ⟨hopen, hne⟩, if_pos (Option.mem_some.mpr hopen)]
        rfl
      · rw [if_neg fun hcall => hopen hcall.1, if_neg fun hmem => hopen (Option.mem_some.mp hmem)]
        rfl

theorem calledNames_call (hword : ∀ c ∈ word, isWord c = true) (hne : word ≠ [])
    (rest : List Char) :
    calledNames (word ++ '(' :: rest) = String.ofList word :: calledNames rest := by
  have hopen : isWord '(' = false := by decide
  have hrest : startsWord ('(' :: rest) = false := hopen
  rw [calledNames_append hword hne hrest, List.head?_cons, if_pos (Option.mem_some_self _),
    calledNames_cons hopen]
  rfl

theorem startsWord_append {front : List Char} (hfront : startsWord front = false)
    (hrest : startsWord rest = false) : startsWord (front ++ rest) = false := by
  cases front with
  | nil => exact hrest
  | cons c front => exact hfront

/-- The names that a text calls behind a closing parenthesis are among those of the whole. -/
theorem calledNames_subset_append (front rest : List Char) :
    calledNames rest ⊆ calledNames (front ++ ')' :: rest) := by
  have hclosing : isWord ')' = false := by decide
  induction front using word_induction with
  | nil =>
      rw [List.nil_append, calledNames_cons hclosing]
      exact List.Subset.refl _
  | separator c front hc ih =>
      rw [List.cons_append, calledNames_cons hc]
      exact ih
  | word word front hne hword hfront ih =>
      have hborder : startsWord (front ++ ')' :: rest) = false := startsWord_append hfront hclosing
      rw [List.append_assoc, calledNames_append hword hne hborder]
      exact List.subset_append_of_subset_right _ ih

theorem calledNames_columnRef (hword : ∀ c ∈ word, isWord c = true) (hne : word ≠ [])
    (rest : List Char) : calledNames (columnRef word ++ rest) = "col" :: calledNames rest := by
  have hcol : ∀ c ∈ ['c', 'o', 'l'], isWord c = true := List.all_eq_true.mp (by decide)
  have hcut : columnRef word ++ rest =
      ['c', 'o', 'l'] ++ '(' :: '\'' :: (word ++ '\'' :: ')' :: rest) := by
    simp [columnRef]
  have hquote : isWord '\'' = false := by decide
  have hborder : startsWord ('\'' :: ')' :: rest) = false := hquote
  rw [hcut, calledNames_call hcol (List.cons_ne_nil _ _), calledNames_cons hquote,
    calledNames_append hword hne hborder, calledNames_cons hquote, calledNames_cons (by decide)]
  rfl

/-- Wrapping names brings in no call but that of `col`. -/
theorem calledNames_wrapWords (cs : List Char) :
    calledNames (wrapWords [] cs) ⊆ "col" :: calledNames cs := by
  induction cs using word_induction with
  | nil => exact List.nil_subset _
  | separator c cs hc ih =>
      rw [wrapWords_cons hc, calledNames_cons hc, calledNames_cons hc]
      exact ih
  | word word cs hne hword hcs ih =>
      have hlater : "col" :: calledNames cs ⊆ "col" :: calledNames (word ++ cs) := by
        rw [calledNames_append hword hne hcs]
        exact List.cons_subset_cons _ (List.subset_append_right _ _)
      rw [wrapWords_append hword hcs, wrapWord_eq]
      split
      · rw [calledNames_columnRef hword hne]
        exact List.cons_subset.mpr ⟨List.mem_cons_self, List.Subset.trans ih hlater⟩
      · -- The text behind the word begins as it did, so the word is called if it was.
        have hbegins : (wrapWords [] cs).head? = cs.head? ∧
            startsWord (wrapWords [] cs) = false := by
          cases cs with
          | nil => exact ⟨rfl, rfl⟩
          | cons c cs =>
              have hc : isWord c = false := hcs
              rw [wrapWords_cons hc]
              exact ⟨rfl, hc⟩
        rw [calledNames_append hword hne hbegins.2, hbegins.1]
        refine List.append_subset.mpr ⟨?_, List.Subset.trans ih hlater⟩
        rw [calledNames_append hword hne hcs]
        exact List.subset_cons_of_subset _ (List.subset_append_left _ _)

theorem calledNames_wrapColumns (cs : List Char) :
    calledNames (wrapColumns cs) ⊆ "col" :: calledNames cs := by
  rw [wrapColumns]
  split
  · exact List.subset_cons_self _ _
  · exact calledNames_wrapWords cs

end CalledNames

/-! ## Calls -/

/-- The functions that are not only renamed: the special ones, and those that wrap their first
argument. -/
def reshapedFunctions : List String :=
  specialFunctions ++ ["Num", "Text", "Dual"]

/-- A known function wraps its first argument, or it has a new name. That of `Null` has a pair of
parentheses, and the others have none. -/
theorem renamed_of_target? {name : String} {target : Target} (h : target? name = some target) :
    name ∈ reshapedFunctions ∨ ∃ new, target = .renamed new ∧
      (parentheses new.toList = [] ∨ parentheses new.toList = ['(', ')']) := by
  unfold target? at h
  split at h
  case h_44 =>
    cases h
    exact .inr ⟨_, rfl, .inr (by decide)⟩
  case h_47 | h_48 | h_49 => exact .inl (by decide)
  case h_50 => cases h
  all_goals
    cases h
    exact .inr ⟨_, rfl, .inl (by decide)⟩

/-- A function that is only renamed keeps all its arguments behind the new name. -/
theorem exists_shape_eq_spread {name : String} (hname : parentheses name.toList = [])
    (h : name ∉ reshapedFunctions) : ∃ target, shape name = .spread target ∧
      (parentheses target.toList = [] ∨ parentheses target.toList = ['(', ')']) := by
  have hspecial : name ∉ specialFunctions := fun hmem => h (List.mem_append_left _ hmem)
  rw [shape_of_not_mem_specialFunctions hspecial]
  cases htarget : target? name with
  | none => exact ⟨name, rfl, .inl hname⟩
  | some target =>
      rcases renamed_of_target? htarget with hreshaped | ⟨new, rfl, hnew⟩
      · exact absurd hreshaped h
      · exact ⟨new, rfl, hnew⟩

theorem parentheses_intercalate (pieces : List (List Char)) :
    parentheses ([','].intercalate pieces) = pieces.flatMap parentheses := by
  induction pieces with
  | nil => rfl
  | cons piece pieces ih =>
      cases pieces with
      | nil => simp
      | cons next pieces =>
          have hcomma : parentheses [','] = [] := rfl
          rw [List.intercalate_cons_of_ne_nil (List.cons_ne_nil next pieces), parentheses_append,
            parentheses_append, hcomma, List.append_nil, ih]
          rfl

theorem parentheses_trim (cs : List Char) : parentheses (trim cs) = parentheses cs := by
  obtain ⟨front, back, hcs, hfront, hback⟩ := (stripped_trimOf isBlank cs).around
  have hlead : parentheses front = [] := parentheses_eq_nil (by decide) (by decide) hfront
  have htrail : parentheses back = [] := parentheses_eq_nil (by decide) (by decide) hback
  conv_rhs => rw [hcs, parentheses_append, parentheses_append, hlead, htrail, List.append_nil]
  rfl

theorem parentheses_callEnd (args : List (List Char)) :
    parentheses (callEnd args) = args.flatMap parentheses ++ [')'] := by
  induction args with
  | nil => rfl
  | cons arg args ih =>
      rw [callEnd_cons, parentheses_other rfl, parentheses_other rfl, parentheses_append, ih,
        List.flatMap_cons, List.append_assoc]

/-- The arguments of a call have the parentheses of the text that is cut at its commas. -/
theorem parentheses_arguments (argText : List Char) :
    ((List.splitOn ',' argText).map trim).flatMap parentheses = parentheses argText := by
  have hjoined := parentheses_intercalate (List.splitOn ',' argText)
  rw [List.intercalate_splitOn] at hjoined
  rw [hjoined, List.flatMap_map]
  exact congrArg (List.flatMap · _) (funext parentheses_trim)

/-- A renamed call has the parentheses of the call, and a pair before them at most. -/
theorem pairsBefore_convertCall {word : List Char} (hword : ∀ c ∈ word, isWord c = true)
    (hplain : String.ofList word ∉ reshapedFunctions) (argText : List Char) :
    PairsBefore ('(' :: (parentheses argText ++ [')']))
      (parentheses (convertCall word argText)) := by
  have hname : parentheses (String.ofList word).toList = [] := by
    rw [String.toList_ofList, parentheses_word hword]
  obtain ⟨target, hshape, htarget⟩ := exists_shape_eq_spread hname hplain
  have hargs := parentheses_arguments argText
  have hne : (List.splitOn ',' argText).map trim ≠ [] :=
    fun hnil => List.splitOnP_ne_nil _ argText (List.map_eq_nil_iff.mp hnil)
  rw [convertCall_eq (List.all_eq_true.mpr hword), hshape]
  generalize (List.splitOn ',' argText).map trim = args at hargs hne
  obtain ⟨first, rest, rfl⟩ := List.exists_cons_of_ne_nil hne
  rw [List.flatMap_cons] at hargs
  rw [CallShape.write_spread, parentheses_append, parentheses_opening, parentheses_append,
    parentheses_callEnd, ← List.append_assoc, hargs]
  rcases htarget with hnone | hpair
  · rw [hnone]
    exact .refl _
  · rw [hpair]
    exact .insert (.refl _)

/-- If all called functions are only renamed, converting the calls brings in pairs before opening
parentheses and nothing else. -/
theorem pairsBefore_convertCalls {cs : List Char}
    (h : ∀ name ∈ calledNames cs, name ∉ reshapedFunctions) :
    PairsBefore (parentheses cs) (parentheses (convertCalls cs)) := by
  induction cs using call_induction with
  | nil => exact .nil
  | separator c cs hc ih =>
      rw [calledNames_cons hc] at h
      rw [convertCalls_cons hc, parentheses_cons, parentheses_cons c (convertCalls cs)]
      exact (PairsBefore.refl _).append (ih h)
  | word word cs hne hword hcs hcall ih =>
      rw [calledNames_append hword hne hcs, if_neg hcall, List.nil_append] at h
      rw [convertCalls_append hword hcs hcall, parentheses_append, parentheses_append]
      exact (PairsBefore.refl _).append (ih h)
  | unclosed word cs hne hword hunclosed ih =>
      rw [calledNames_call hword hne] at h
      rw [convertCalls_unclosed hword hunclosed, parentheses_append, parentheses_append,
        parentheses_opening, parentheses_opening]
      exact (PairsBefore.refl _).append ((ih (List.forall_mem_cons.mp h).2).keep '(')
  | call word inner rest hne hword hinner hline ih =>
      rw [calledNames_call hword hne] at h
      obtain ⟨hplain, hlater⟩ := List.forall_mem_cons.mp h
      have hrest := ih fun name hname => hlater name (calledNames_subset_append inner rest hname)
      have hcall := (pairsBefore_convertCall hword hplain inner).append hrest
      rw [convertCalls_call hword hne hinner hline, parentheses_append, parentheses_append,
        parentheses_word hword, parentheses_opening, parentheses_append, parentheses_closing]
      simpa using hcall

/-! ## Operators -/

theorem parentheses_replace {pattern replacement : List Char} (hne : pattern ≠ [])
    (hpattern : parentheses pattern = []) (hreplacement : parentheses replacement = [])
    (cs : List Char) : parentheses (replace pattern replacement cs) = parentheses cs := by
  induction cs using replace_induction hne with
  | nil => rfl
  | kept c cs hstarts ih =>
      rw [replace_cons hstarts, parentheses_cons, ih, ← parentheses_cons]
  | replaced cs ih =>
      rw [replace_self_append hne, parentheses_append, parentheses_append, ih, hpattern,
        hreplacement]

theorem parentheses_doubleEqualsAfter (prev : Option Char) (cs : List Char) :
    parentheses (doubleEqualsAfter prev cs) = parentheses cs := by
  induction cs generalizing prev with
  | nil => rfl
  | cons c cs ih =>
      have hequals : ∀ rest, parentheses ('=' :: rest) = parentheses rest := fun _ => rfl
      rw [doubleEqualsAfter]
      split
      · next hdoubled =>
        obtain rfl : c = '=' := by
          rw [Bool.and_eq_true, Bool.and_eq_true] at hdoubled
          exact eq_of_beq hdoubled.1.1
        rw [hequals, hequals, hequals, ih]
      · rw [parentheses_cons, ih, ← parentheses_cons]

theorem parentheses_replaceConnectives {pairs : List (List Char × List Char)}
    (h : ∀ pair ∈ pairs, parentheses (spaced pair.1) = [] ∧ parentheses (spaced pair.2) = [])
    (cs : List Char) : parentheses (replaceConnectives pairs cs) = parentheses cs := by
  induction pairs generalizing cs with
  | nil => rfl
  | cons pair pairs ih =>
      obtain ⟨hword, hmark⟩ := h pair List.mem_cons_self
      have hlater := ih fun other hother => h other (List.mem_cons_of_mem pair hother)
      rw [replaceConnectives, List.foldl_cons, ← replaceConnectives, hlater,
        parentheses_replace (spaced_ne_nil pair.1) hword hmark]

theorem parentheses_convertOperators (cs : List Char) :
    parentheses (convertOperators cs) = parentheses cs := by
  have hpairs : ∀ pair ∈ programPairs,
      parentheses (spaced pair.1) = [] ∧ parentheses (spaced pair.2) = [] := by decide
  rw [convertOperators, parentheses_replace (List.cons_ne_nil _ _) rfl rfl, doubleEquals,
    parentheses_doubleEqualsAfter, parentheses_replaceConnectives hpairs]

/-! ## Expressions -/

/-- If all called functions are only renamed, converting an expression inserts complete pairs
among its parentheses and changes nothing else about them. So it is balanced before exactly if
it is balanced after. -/
theorem pairsInserted_convertExpression {cs : List Char}
    (h : ∀ name ∈ calledNames cs, name ∉ reshapedFunctions) :
    PairsInserted (parentheses cs) (parentheses (convertExpression cs)) ∧
      isBalanced (convertExpression cs) = isBalanced cs := by
  have hcol : "col" ∉ reshapedFunctions := by decide
  have hwrapped : ∀ name ∈ calledNames (wrapColumns cs), name ∉ reshapedFunctions := by
    intro name hname
    rcases List.mem_cons.mp (calledNames_wrapColumns cs hname) with rfl | hcalled
    · exact hcol
    · exact h name hcalled
  have hinserted : PairsInserted (parentheses cs) (parentheses (convertExpression cs)) := by
    rw [convertExpression_eq_convertOperators, parentheses_convertOperators]
    exact (pairsInserted_wrapColumns cs).trans_before (pairsBefore_convertCalls hwrapped)
  refine ⟨hinserted, ?_⟩
  rw [isBalanced, isBalanced, ← closesFrom_parentheses, ← closesFrom_parentheses 0 cs]
  exact hinserted.closesFrom_eq 0

/-- A call inside of another one, one of `Null`, and one that is not closed in its line. -/
def nestedCalls : List Char :=
  "Round(Sum(Price) / Null(), 2) and Len(\nName)".toList

theorem pairsInserted_nestedCalls :
    calledNames nestedCalls = ["Round", "Sum", "Null", "Len"] ∧
      convertExpression nestedCalls =
        "round(Sum(col('Price')) / lit(None)(), 2) & Len(\ncol('Name'))".toList ∧
      PairsInserted "(()())()".toList "((())()())(())".toList ∧
      isBalanced (convertExpression nestedCalls) = true := by
  have hnames : calledNames nestedCalls = ["Round", "Sum", "Null", "Len"] := by decide
  have hplain : ∀ name ∈ calledNames nestedCalls, name ∉ reshapedFunctions := by
    rw [hnames]
    decide
  obtain ⟨hinserted, hbalanced⟩ := pairsInserted_convertExpression hplain
  have hbefore : parentheses nestedCalls = "(()())()".toList := by decide
  have hconverted : convertExpression nestedCalls =
      "round(Sum(col('Price')) / lit(None)(), 2) & Len(\ncol('Name'))".toList := by decide
  have hafter : parentheses (convertExpression nestedCalls) = "((())()())(())".toList := by
    rw [hconverted]
    decide
  rw [hbefore, hafter] at hinserted
  exact ⟨hnames, hconverted, hinserted, hbalanced.trans (by decide)⟩

end QlikMigration.Spark
