import QlikMigration.Proofs.ClauseReading
import QlikMigration.Spark.Expression

/-!
# Rewriting a text part by part

An expression is converted by passes over its whole text: names are wrapped,
calls are converted, connectives and operators are replaced. Each pass looks a
little ahead or back, and where nothing it looks for reaches over the border of
two parts, it treats the parts one after the other. This module says for each
pass which borders are of that kind.

A word is the unit of the first two passes, so its border is that no word
character follows. The border of the other passes is a matter of single
characters.
-/

namespace QlikMigration.Spark

open QlikMigration.Text QlikMigration.Script

/-! ## Replacing -/

section Replacing

variable {pattern replacement : List Char}

/-- Characters that belong to an occurrence already replaced are dropped. -/
theorem replaceFrom_eq_drop (skip : Nat) (cs : List Char) :
    replaceFrom pattern replacement skip cs = replace pattern replacement (cs.drop skip) := by
  induction cs generalizing skip with
  | nil => cases skip <;> rfl
  | cons c cs ih =>
      cases skip with
      | zero => rfl
      | succ skip =>
          rw [replaceFrom, List.drop_succ_cons]
          exact ih skip

/-- A character at which the pattern does not stand is kept. -/
theorem replace_cons {c : Char} {cs : List Char} (h : pattern.isPrefixOf (c :: cs) = false) :
    replace pattern replacement (c :: cs) = c :: replace pattern replacement cs := by
  rw [replace, replaceFrom, h]
  rfl

/-- A pattern that stands at the start of a text is replaced. -/
theorem replace_self_append (hne : pattern ≠ []) (rest : List Char) :
    replace pattern replacement (pattern ++ rest) =
      replacement ++ replace pattern replacement rest := by
  have hstarts : pattern.isPrefixOf (pattern ++ rest) = true :=
    List.isPrefixOf_iff_prefix.mpr (List.prefix_append pattern rest)
  obtain ⟨c, tail, rfl⟩ := List.exists_cons_of_ne_nil hne
  rw [List.cons_append] at hstarts ⊢
  rw [replace, replaceFrom, if_pos hstarts, replaceFrom_eq_drop]
  simp

/-- A pattern does not stand in a text without its first character. -/
theorem isPrefixOf_append_of_not_mem {first : Char} {tail front part : List Char}
    (hfirst : first ∉ front) (hne : part ≠ []) (hpart : part <:+ front) (rest : List Char) :
    (first :: tail).isPrefixOf (part ++ rest) = false := by
  obtain ⟨c, part, rfl⟩ := List.exists_cons_of_ne_nil hne
  have hc : first ≠ c := fun heq => hfirst (heq ▸ hpart.subset List.mem_cons_self)
  simp [List.isPrefixOf, hc]

/-- A text without the first character of a pattern is passed over. -/
theorem replace_append_of_not_mem {first : Char} {tail front : List Char} (hfirst : first ∉ front)
    (rest : List Char) :
    replace (first :: tail) replacement (front ++ rest) =
      front ++ replace (first :: tail) replacement rest :=
  replace_append fun _ hne hpart => isPrefixOf_append_of_not_mem hfirst hne hpart rest

/-- A pattern of two characters is replaced part by part, if it does not reach over the
border. -/
theorem replace_pair_append {first second : Char} :
    ∀ {front rest : List Char}, (second ∉ rest.head? ∨ first ∉ front.getLast?) →
      replace [first, second] replacement (front ++ rest) =
        replace [first, second] replacement front ++ replace [first, second] replacement rest
  | [], _, _ => rfl
  | [c], rest, hborder => by
      have hapart : [first, second].isPrefixOf (c :: rest) = false := by
        cases rest with
        | nil => by_cases hc : first = c <;> simp [List.isPrefixOf, hc]
        | cons d rest =>
            rcases hborder with hd | hc
            · have hne : second ≠ d := fun heq => hd (by rw [heq]; rfl)
              by_cases hc : first = c <;> simp [List.isPrefixOf, hc, hne]
            · have hne : first ≠ c := fun heq => hc (by rw [heq]; rfl)
              simp [List.isPrefixOf, hne]
      have halone : [first, second].isPrefixOf [c] = false := by
        by_cases hc : first = c <;> simp [List.isPrefixOf, hc]
      rw [List.singleton_append, replace_cons hapart, replace_cons halone]
      rfl
  | c :: d :: front, rest, hborder => by
      by_cases hpair : first = c ∧ second = d
      · obtain ⟨rfl, rfl⟩ := hpair
        have hlater : second ∉ rest.head? ∨ first ∉ front.getLast? := by
          refine hborder.imp_right fun hlast hmem => hlast ?_
          rw [Option.mem_def] at hmem ⊢
          simp [List.getLast?_cons, hmem]
        have hself : ∀ tail, replace [first, second] replacement ([first, second] ++ tail) =
            replacement ++ replace [first, second] replacement tail :=
          replace_self_append (List.cons_ne_nil first [second])
        rw [show first :: second :: front = [first, second] ++ front from rfl, List.append_assoc,
          hself, hself, replace_pair_append hlater, List.append_assoc]
      · have hapart : ∀ tail, [first, second].isPrefixOf (c :: d :: tail) = false := by
          intro tail
          rw [not_and] at hpair
          by_cases hc : first = c
          · simp [List.isPrefixOf, hc, hpair hc]
          · simp [List.isPrefixOf, hc]
        have hlater : second ∉ rest.head? ∨ first ∉ (d :: front).getLast? := by
          simpa [List.getLast?_cons] using hborder
        rw [List.cons_append, List.cons_append, replace_cons (hapart _), ← List.cons_append,
          replace_pair_append hlater, replace_cons (hapart front), List.cons_append]

end Replacing

/-! ## Doubling equals signs -/

/-- Where an equals sign would join nothing before it, or there is none, what comes before
a text does not matter. -/
theorem doubleEqualsAfter_eq {prev : Option Char} {cs : List Char}
    (h : joinsEquals prev = false ∨ '=' ∉ cs.head?) :
    doubleEqualsAfter prev cs = doubleEquals cs := by
  cases cs with
  | nil => rfl
  | cons c cs =>
      rw [doubleEquals, doubleEqualsAfter, doubleEqualsAfter]
      rcases h with hprev | hc
      · rw [hprev]
        rfl
      · have hne : (c == '=') = false := by simpa using hc
        simp [hne]

/-- The sign at the border is doubled as it would be without what follows, if no sign
follows. -/
theorem doubleEqualsAfter_append {front rest : List Char}
    (h : '=' ∉ front.getLast? ∨ '=' ∉ rest.head?) (prev : Option Char) :
    doubleEqualsAfter prev (front ++ rest) =
      doubleEqualsAfter prev front ++ doubleEqualsAfter (front.getLast?.or prev) rest := by
  induction front generalizing prev with
  | nil => rfl
  | cons c front ih =>
      have hahead : (c == '=' && !List.isPrefixOf ['='] (front ++ rest)) =
          (c == '=' && !List.isPrefixOf ['='] front) := by
        cases front with
        | nil =>
            rcases h with hc | hhead
            · have hne : (c == '=') = false := by simpa using hc
              rw [hne, Bool.false_and, Bool.false_and]
            · rw [List.nil_append, isPrefixOf_singleton_eq_false hhead]
              rfl
        | cons d front => rw [isPrefixOf_singleton, isPrefixOf_singleton]; rfl
      have hlater := ih (by cases front <;> simp_all [List.getLast?_cons]) (some c)
      have hcondition : (c == '=' && !joinsEquals prev && !List.isPrefixOf ['='] (front ++ rest)) =
          (c == '=' && !joinsEquals prev && !List.isPrefixOf ['='] front) := by
        rw [Bool.and_right_comm, hahead, Bool.and_right_comm]
      rw [List.cons_append, doubleEqualsAfter, doubleEqualsAfter, hcondition, hlater,
        getLast?_cons_or]
      split <;> rfl

/-- Equals signs are doubled part by part, if no operator reaches over the border. -/
theorem doubleEquals_append {front rest : List Char}
    (h : joinsEquals front.getLast? = false ∨ '=' ∉ rest.head?) :
    doubleEquals (front ++ rest) = doubleEquals front ++ doubleEquals rest := by
  have hborder : '=' ∉ front.getLast? ∨ '=' ∉ rest.head? := by
    refine h.imp_left fun hjoins hmem => ?_
    rw [Option.mem_def.mp hmem] at hjoins
    exact absurd hjoins (by decide)
  rw [doubleEquals, doubleEqualsAfter_append hborder, Option.or_none, doubleEqualsAfter_eq h]
  rfl

/-- A text without equals signs stays as it is. -/
theorem doubleEquals_eq_self {cs : List Char} (h : '=' ∉ cs) : doubleEquals cs = cs := by
  have hafter : ∀ prev, doubleEqualsAfter prev cs = cs := by
    induction cs with
    | nil => exact fun _ => rfl
    | cons c cs ih =>
        intro prev
        rw [List.mem_cons, not_or] at h
        have hc : (c == '=') = false := by simpa using Ne.symm h.1
        rw [doubleEqualsAfter, hc, ih h.2]
        rfl
  exact hafter none

/-! ## Looking for parts -/

/-- A search for a part passes over a text in which the part does not start. -/
theorem contains_append {part front rest : List Char}
    (h : ∀ tail, tail ≠ [] → tail <:+ front → part.isPrefixOf (tail ++ rest) = false) :
    contains part (front ++ rest) = contains part rest := by
  induction front with
  | nil => rfl
  | cons c front ih =>
      have hhere := h (c :: front) (List.cons_ne_nil c front) (List.suffix_refl _)
      rw [List.cons_append] at hhere
      rw [List.cons_append, contains, hhere, Bool.false_or]
      exact ih fun tail hne htail => h tail hne (htail.trans (List.suffix_cons c front))

/-- A word and a character after it stand at the start of another word and its surroundings
only if the words are the same and the character follows. -/
theorem isPrefixOf_word_append {word other rest : List Char} {c : Char}
    (hword : ∀ d ∈ word, isWord d = true) (hother : ∀ d ∈ other, isWord d = true)
    (hc : isWord c = false) (hrest : startsWord rest = false) :
    (word ++ [c]).isPrefixOf (other ++ rest) = true ↔ word = other ∧ c ∈ rest.head? := by
  induction word generalizing other with
  | nil =>
      cases other with
      | nil => simp [isPrefixOf_singleton]
      | cons d other =>
          have hne : d ≠ c := ne_of_isWord (hother d List.mem_cons_self) hc
          simp [isPrefixOf_singleton, hne]
  | cons d word ih =>
      have hd := hword d List.mem_cons_self
      have hlater := fun other hother =>
        @ih other (fun e he => hword e (List.mem_cons_of_mem d he)) hother
      cases other with
      | nil =>
          cases rest with
          | nil => simp
          | cons e rest =>
              have hne : d ≠ e := ne_of_isWord hd hrest
              simp [List.isPrefixOf, hne]
      | cons e other =>
          by_cases he : d = e
          · subst he
            have hsame := hlater other fun e he => hother e (List.mem_cons_of_mem d he)
            simpa [List.isPrefixOf] using hsame
          · simp [List.isPrefixOf, he]

/-! ## Words -/

section Words

variable {word rest : List Char}

/-- A character that is not part of a word is passed over when names are wrapped. -/
theorem wrapWords_cons {c : Char} (hc : isWord c = false) (rest : List Char) :
    wrapWords [] (c :: rest) = c :: wrapWords [] rest := by
  rw [wrapWords, hc]
  rfl

/-- A word is wrapped on its own, where no word character follows it. -/
theorem wrapWords_append (hword : ∀ c ∈ word, isWord c = true) (hrest : startsWord rest = false) :
    wrapWords [] (word ++ rest) = wrapWord word rest ++ wrapWords [] rest := by
  -- The word read so far grows while the rest of the word shrinks.
  have hread : ∀ start, wrapWords start (word ++ rest) =
      wrapWord (start ++ word) rest ++ wrapWords [] rest := by
    induction word with
    | nil =>
        intro start
        cases rest with
        | nil => simp [wrapWords, wrapWord, startsPlain]
        | cons c rest =>
            have hc : isWord c = false := hrest
            rw [List.nil_append, List.append_nil, wrapWords_cons hc, wrapWords, hc]
            rfl
    | cons c word ih =>
        intro start
        have hlater := ih (fun d hd => hword d (List.mem_cons_of_mem c hd)) (start ++ [c])
        rw [List.cons_append, wrapWords, if_pos (hword c List.mem_cons_self), hlater,
          List.append_assoc, List.singleton_append]
  exact hread []

/-- Characters of a call that is already converted are dropped. -/
theorem convertCallsFrom_eq_drop (skip : Nat) (cs : List Char) :
    convertCallsFrom skip [] cs = convertCalls (cs.drop skip) := by
  induction cs generalizing skip with
  | nil => cases skip <;> rfl
  | cons c cs ih =>
      cases skip with
      | zero => rfl
      | succ skip =>
          rw [convertCallsFrom, List.drop_succ_cons]
          exact ih skip

/-- A character that is not part of a word calls nothing. -/
theorem convertCalls_cons {c : Char} (hc : isWord c = false) (rest : List Char) :
    convertCalls (c :: rest) = c :: convertCalls rest := by
  rw [convertCalls, convertCallsFrom, hc]
  simp [convertCalls]

/-- The characters of a word are read one after the other. -/
theorem convertCallsFrom_append (hword : ∀ c ∈ word, isWord c = true) (start rest : List Char) :
    convertCallsFrom 0 start (word ++ rest) = convertCallsFrom 0 (start ++ word) rest := by
  induction word generalizing start with
  | nil => rw [List.nil_append, List.append_nil]
  | cons c word ih =>
      have hlater := ih (fun d hd => hword d (List.mem_cons_of_mem c hd)) (start ++ [c])
      rw [List.cons_append, convertCallsFrom, if_pos (hword c List.mem_cons_self), hlater,
        List.append_assoc, List.singleton_append]

/-- A word is no call, where neither a word character nor a parenthesis follows it. -/
theorem convertCalls_append (hword : ∀ c ∈ word, isWord c = true)
    (hrest : startsWord rest = false) (hopen : '(' ∉ rest.head?) :
    convertCalls (word ++ rest) = word ++ convertCalls rest := by
  rw [convertCalls, convertCallsFrom_append hword, List.nil_append]
  cases rest with
  | nil => simp [convertCallsFrom, convertCalls]
  | cons c rest =>
      have hc : isWord c = false := hrest
      have hne : ¬(c = '(' ∧ word ≠ []) := fun hcall => hopen (by rw [hcall.1]; rfl)
      rw [convertCalls_cons hc, convertCallsFrom, hc, if_neg Bool.false_ne_true, if_neg hne]
      rfl

/-- The text of the arguments ends at the nearest closing parenthesis, which stands in its line. -/
theorem upTo?_closing_eq_some_iff {cs argText : List Char} :
    upTo? withinLine ([')'].isPrefixOf) cs = some argText ↔
      ∃ rest, cs = argText ++ ')' :: rest ∧ ')' ∉ argText ∧ '\n' ∉ argText := by
  constructor
  · intro h
    induction cs generalizing argText with
    | nil => cases h
    | cons c cs ih =>
        rw [upTo?, isPrefixOf_singleton, List.head?_cons] at h
        split at h
        · next hclosing =>
          obtain rfl : c = ')' := by simpa using hclosing
          cases h
          exact ⟨cs, rfl, List.not_mem_nil, List.not_mem_nil⟩
        · next hgo =>
          split at h
          · next hcrosses =>
            obtain ⟨later, hlater, rfl⟩ := Option.map_eq_some_iff.mp h
            obtain ⟨rest, rfl, hclosing, hline⟩ := ih hlater
            have hc : c ≠ ')' := by simpa using hgo
            have hend : c ≠ '\n' := by simpa [withinLine] using hcrosses
            exact ⟨rest, rfl, by simp [hclosing, hc.symm], by simp [hline, hend.symm]⟩
          · cases h
  · rintro ⟨rest, rfl, hclosing, hline⟩
    refine upTo?_append (fun c hc => withinLine_of_ne fun heq => hline (heq ▸ hc)) ?_ rfl
    intro part hpart hsuffix
    apply isPrefixOf_singleton_eq_false
    rw [List.head?_append_of_ne_nil part hpart]
    exact fun hmem => hclosing (hsuffix.subset (List.mem_of_mem_head? hmem))

/-- A word, an argument text and the next closing parenthesis are a call. -/
theorem convertCalls_call (hword : ∀ c ∈ word, isWord c = true) (hne : word ≠ [])
    {argText : List Char} (hclosing : ')' ∉ argText) (hline : '\n' ∉ argText) (rest : List Char) :
    convertCalls (word ++ '(' :: (argText ++ ')' :: rest)) =
      convertCall word argText ++ convertCalls rest := by
  have hargument := upTo?_closing_eq_some_iff.mpr ⟨rest, rfl, hclosing, hline⟩
  have hopen : isWord '(' = false := by decide
  rw [convertCalls, convertCallsFrom_append hword, List.nil_append, convertCallsFrom, hopen,
    if_neg Bool.false_ne_true, if_pos ⟨rfl, hne⟩, hargument]
  simp [convertCallsFrom_eq_drop]

/-- A word and an opening parenthesis that is not closed in its line are no call. -/
theorem convertCalls_unclosed (hword : ∀ c ∈ word, isWord c = true)
    (hrest : upTo? withinLine ([')'].isPrefixOf) rest = none) :
    convertCalls (word ++ '(' :: rest) = word ++ '(' :: convertCalls rest := by
  have hopen : isWord '(' = false := by decide
  rw [convertCalls, convertCallsFrom_append hword, List.nil_append, convertCallsFrom, hopen,
    if_neg Bool.false_ne_true, hrest]
  split <;> rfl

/-- Between the quotes around a word there are only word characters. -/
theorem not_mem_quotedWord (hword : ∀ c ∈ word, isWord c = true) {c : Char} (hquote : c ≠ '\'')
    (hc : isWord c = false) : c ∉ '\'' :: (word ++ ['\'']) := by
  simp only [List.mem_cons, List.mem_append, List.not_mem_nil, or_false]
  rintro (heq | hmem | heq)
  · exact hquote heq
  · exact ne_of_isWord (hword c hmem) hc rfl
  · exact hquote heq

/-- A quoted word is the one argument of a call of `col`. -/
theorem convertCall_quotedWord (hword : ∀ c ∈ word, isWord c = true) :
    convertCall ['c', 'o', 'l'] ('\'' :: (word ++ ['\''])) = columnRef word := by
  have hcomma : ',' ∉ '\'' :: (word ++ ['\'']) :=
    not_mem_quotedWord hword (by decide) (by decide)
  have hsolid : Solid ('\'' :: (word ++ ['\''])) := by
    rw [← List.cons_append]
    refine (solid_singleton (by decide)).append_left ?_ ?_
    · intro c hc
      obtain rfl : '\'' = c := by simpa using hc
      decide
    · intro hline
      exact not_mem_quotedWord hword (by decide) (by decide)
        (List.mem_append_left ['\''] hline)
  rw [convertCall, List.splitOn_eq_singleton hcomma, List.map_cons,
    hsolid.trim_eq_self, List.map_nil]
  -- `col` is neither special nor known, so the call is written as it was.
  have hcall : functionCall (String.ofList ['c', 'o', 'l'])
      (String.ofList ('\'' :: (word ++ ['\'']))) [] =
        call "col" [String.ofList ('\'' :: (word ++ ['\'']))] := rfl
  show (functionCall _ _ []).toList = _
  rw [hcall, call]
  simp [columnRef]

/-- A wrapped name is a call that stays as it is. -/
theorem convertCalls_columnRef (hword : ∀ c ∈ word, isWord c = true) (rest : List Char) :
    convertCalls (columnRef word ++ rest) = columnRef word ++ convertCalls rest := by
  have hcol : ∀ c ∈ ['c', 'o', 'l'], isWord c = true := List.all_eq_true.mp (by decide)
  have hcall := convertCalls_call hcol (by decide)
    (not_mem_quotedWord hword (by decide) (by decide))
    (not_mem_quotedWord hword (by decide) (by decide)) rest
  rw [convertCall_quotedWord hword] at hcall
  rw [← hcall]
  simp [columnRef]

end Words

end QlikMigration.Spark
