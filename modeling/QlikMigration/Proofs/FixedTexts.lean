import QlikMigration.Proofs.Conditions
import QlikMigration.Proofs.FileFormats
import QlikMigration.Proofs.FrameNames
import QlikMigration.Proofs.Provenance

/-!
# Texts that a conversion leaves alone

The passes of a conversion know nothing of quotes, but each of them looks for
certain characters only. A character that no pass looks for cuts a text: what
stands before it and what stands behind it are converted apart.

A text between two such characters comes out as it went in exactly if no pass
finds anything in it. That each pass can be looked at alone is a matter of
counting: replacing connectives makes letters fewer, doubling makes a text
longer, and replacing inequality signs makes less-than signs fewer, and no later
pass makes up for it.
-/

namespace QlikMigration.Spark

open QlikMigration.Text QlikMigration.Script
open Spelling (spaced replaceConnectives programPairs Replacing replacing_programPairs)

/-! ## Cutting at a character -/

section Cutting

variable {q : Char} {pattern replacement : List Char}

theorem isPrefixOf_append_cons (hq : q ∉ pattern) (front rest : List Char) :
    pattern.isPrefixOf (front ++ q :: rest) = pattern.isPrefixOf front := by
  induction pattern generalizing front with
  | nil => rfl
  | cons p pattern ih =>
      rw [List.mem_cons, not_or] at hq
      cases front with
      | nil => simp [List.isPrefixOf, Ne.symm hq.1]
      | cons c front =>
          rw [List.cons_append, List.isPrefixOf_cons_cons, List.isPrefixOf_cons_cons, ih hq.2]

theorem isPrefixOf_nil (hne : pattern ≠ []) : pattern.isPrefixOf [] = false := by
  obtain ⟨c, pattern, rfl⟩ := List.exists_cons_of_ne_nil hne
  rfl

theorem replace_append_cons (hne : pattern ≠ []) (hq : q ∉ pattern) (front rest : List Char) :
    replace pattern replacement (front ++ q :: rest) =
      replace pattern replacement front ++ q :: replace pattern replacement rest := by
  induction front using replace_induction hne with
  | nil =>
      have hstarts := isPrefixOf_append_cons hq [] rest
      rw [isPrefixOf_nil hne] at hstarts
      exact replace_cons hstarts
  | kept c front hstarts ih =>
      have happend := isPrefixOf_append_cons hq (c :: front) rest
      rw [hstarts, List.cons_append] at happend
      rw [List.cons_append, replace_cons happend, ih, replace_cons hstarts, List.cons_append]
  | replaced front ih =>
      rw [List.append_assoc, replace_self_append hne, replace_self_append hne, ih,
        List.append_assoc]

theorem contains_append_cons (hne : pattern ≠ []) (hq : q ∉ pattern) (front rest : List Char) :
    contains pattern (front ++ q :: rest) = (contains pattern front || contains pattern rest) := by
  induction front with
  | nil =>
      have hstarts := isPrefixOf_append_cons hq [] rest
      rw [isPrefixOf_nil hne] at hstarts
      have hnil : contains pattern [] = false := List.isEmpty_eq_false_iff.mpr hne
      rw [hnil, List.nil_append, contains]
      exact congrArg (· || _) hstarts
  | cons c front ih =>
      have hstarts := isPrefixOf_append_cons hq (c :: front) rest
      rw [List.cons_append] at hstarts
      rw [List.cons_append, contains, hstarts, ih, contains, Bool.or_assoc]

theorem doubleEquals_append_cons (hq : q ∉ operatorChars) (front rest : List Char) :
    doubleEquals (front ++ q :: rest) = doubleEquals front ++ q :: doubleEquals rest := by
  have hne : q ≠ '=' ∧ q ≠ '!' ∧ q ≠ '<' ∧ q ≠ '>' := by simpa [operatorChars] using hq
  have hjoins : joinsEquals (some q) = false := by simp [joinsEquals, hne]
  have hfront : doubleEquals (front ++ q :: rest) =
      doubleEquals front ++ doubleEquals (q :: rest) :=
    doubleEquals_append (.inr (by simpa using hne.1))
  have hrest : doubleEquals ([q] ++ rest) = doubleEquals [q] ++ doubleEquals rest :=
    doubleEquals_append (.inl hjoins)
  have hself : doubleEquals [q] = [q] := doubleEquals_eq_self (by simpa using hne.1.symm)
  rw [List.singleton_append, hself, List.singleton_append] at hrest
  rw [hfront, hrest]

end Cutting

/-- Replaces the connectives and the operators of a text: what is left of a conversion when
its names are wrapped and its calls converted. -/
def convertOperators (cs : List Char) : List Char :=
  replace ['<', '>'] ['!', '='] (doubleEquals (replaceConnectives programPairs cs))

theorem convertExpression_eq_convertOperators (cs : List Char) :
    convertExpression cs = convertOperators (convertCalls (wrapColumns cs)) := rfl

/-- Whether a character occurs in no connective and in no operator. -/
def isApart (q : Char) : Bool :=
  connectiveWords.all (fun word => !(spaced word).contains q) && !operatorChars.contains q

theorem spaced_ne_nil (cs : List Char) : spaced cs ≠ [] :=
  List.cons_ne_nil ' ' (cs ++ [' '])

theorem replaceConnectives_append_cons {q : Char} {pairs : List (List Char × List Char)}
    (hpairs : Replacing pairs) (hq : ∀ word ∈ connectiveWords, q ∉ spaced word)
    (front rest : List Char) :
    replaceConnectives pairs (front ++ q :: rest) =
      replaceConnectives pairs front ++ q :: replaceConnectives pairs rest := by
  induction pairs generalizing front rest with
  | nil => rfl
  | cons pair pairs ih =>
      have hlater := ih fun other hother => hpairs other (List.mem_cons_of_mem pair hother)
      have hword := hq pair.1 (hpairs pair List.mem_cons_self).1
      rw [replaceConnectives, List.foldl_cons, replace_append_cons (spaced_ne_nil pair.1) hword]
      exact hlater _ _

theorem convertOperators_append_cons {q : Char} (hq : isApart q = true) (front rest : List Char) :
    convertOperators (front ++ q :: rest) =
      convertOperators front ++ q :: convertOperators rest := by
  rw [isApart, Bool.and_eq_true, List.all_eq_true] at hq
  have hconnective : ∀ word ∈ connectiveWords, q ∉ spaced word := by
    intro word hword hmem
    have hcontains := hq.1 word hword
    rw [List.contains_iff_mem.mpr hmem] at hcontains
    cases hcontains
  have hoperator : q ∉ operatorChars := by
    intro hmem
    have hcontains := hq.2
    rw [List.contains_iff_mem.mpr hmem] at hcontains
    cases hcontains
  have hunequal : q ∉ ['<', '>'] := by
    intro hmem
    have hsubset : ['<', '>'] ⊆ operatorChars := by simp [operatorChars]
    exact hoperator (hsubset hmem)
  rw [convertOperators, replaceConnectives_append_cons replacing_programPairs hconnective,
    doubleEquals_append_cons hoperator, replace_append_cons (List.cons_ne_nil _ _) hunequal]
  rfl

/-! ## Characters that are kept away -/

theorem mem_replace {pattern replacement cs : List Char} (hne : pattern ≠ []) {c : Char}
    (h : c ∈ replace pattern replacement cs) : c ∈ cs ∨ c ∈ replacement := by
  induction cs using replace_induction hne with
  | nil => exact .inl h
  | kept d cs hstarts ih =>
      rw [replace_cons hstarts, List.mem_cons] at h
      rcases h with rfl | hlater
      · exact .inl List.mem_cons_self
      · exact (ih hlater).imp_left (List.mem_cons_of_mem d)
  | replaced cs ih =>
      rw [replace_self_append hne, List.mem_append] at h
      rcases h with hnew | hlater
      · exact .inr hnew
      · exact (ih hlater).imp_left (List.mem_append_right pattern)

theorem mem_doubleEqualsAfter {prev : Option Char} {cs : List Char} {c : Char}
    (h : c ∈ doubleEqualsAfter prev cs) : c ∈ cs ∨ c = '=' := by
  induction cs generalizing prev with
  | nil => exact .inl h
  | cons d cs ih =>
      have hlater := fun hmem => (@ih (some d) hmem).imp_left (List.mem_cons_of_mem d)
      rw [doubleEqualsAfter] at h
      split at h
      · simp only [List.mem_cons] at h
        rcases h with heq | heq | hmem
        · exact .inr heq
        · exact .inr heq
        · exact hlater hmem
      · rcases List.mem_cons.mp h with rfl | hmem
        · exact .inl List.mem_cons_self
        · exact hlater hmem

theorem mem_replaceConnectives {pairs : List (List Char × List Char)} {cs : List Char} {c : Char}
    (h : c ∈ replaceConnectives pairs cs) : c ∈ cs ∨ ∃ pair ∈ pairs, c ∈ spaced pair.2 := by
  induction pairs generalizing cs with
  | nil => exact .inl h
  | cons pair pairs ih =>
      rcases ih h with hmem | ⟨later, hlater, hmem⟩
      · exact (mem_replace (spaced_ne_nil pair.1) hmem).imp_right
          fun hnew => ⟨pair, List.mem_cons_self, hnew⟩
      · exact .inr ⟨later, List.mem_cons_of_mem pair hlater, hmem⟩

/-- No quote comes with the connectives and operators of a program. -/
theorem quote_not_mem_convertOperators {cs : List Char} (h : '\'' ∉ cs) :
    '\'' ∉ convertOperators cs := by
  have hmarks : ∀ pair ∈ programPairs, '\'' ∉ spaced pair.2 := by decide
  intro hmem
  rcases mem_replace (List.cons_ne_nil _ _) hmem with hdoubled | hunequal
  · rcases mem_doubleEqualsAfter hdoubled with hconnective | heq
    · rcases mem_replaceConnectives hconnective with hcs | ⟨pair, hpair, hspaced⟩
      · exact h hcs
      · exact hmarks pair hpair hspaced
    · exact absurd heq (by decide)
  · exact absurd hunequal (by decide)

/-! ## Counting -/

/-- Every replaced occurrence changes a count by the same amount. -/
theorem exists_countP_replace {pattern replacement : List Char} (hne : pattern ≠ [])
    (p : Char → Bool) (cs : List Char) : ∃ count,
      (replace pattern replacement cs).countP p + count * pattern.countP p =
        cs.countP p + count * replacement.countP p ∧
      (count = 0 → contains pattern cs = false) := by
  induction cs using replace_induction hne with
  | nil => exact ⟨0, by simp [replace, replaceFrom], fun _ => List.isEmpty_eq_false_iff.mpr hne⟩
  | kept c cs hstarts ih =>
      obtain ⟨count, hcount, hzero⟩ := ih
      refine ⟨count, ?_, fun hnone => ?_⟩
      · rw [replace_cons hstarts, List.countP_cons, List.countP_cons]
        omega
      · rw [contains, hstarts, hzero hnone]
        rfl
  | replaced cs ih =>
      obtain ⟨count, hcount, -⟩ := ih
      refine ⟨count + 1, ?_, fun hzero => absurd hzero (Nat.succ_ne_zero count)⟩
      rw [replace_self_append hne, List.countP_append, List.countP_append, Nat.succ_mul,
        Nat.succ_mul]
      omega

theorem replace_of_contains_eq_false {pattern replacement cs : List Char}
    (h : contains pattern cs = false) : replace pattern replacement cs = cs := by
  have happend : replace pattern replacement (cs ++ []) = cs ++ replace pattern replacement [] := by
    apply replace_append
    intro part _ hpart
    rw [List.append_nil]
    exact isPrefixOf_of_contains_eq_false h hpart
  simpa [replace, replaceFrom] using happend

/-- Replacing connectives makes the word characters of a text fewer, unless it finds none. -/
theorem countP_replaceConnectives {pairs : List (List Char × List Char)} (hpairs : Replacing pairs)
    (cs : List Char) :
    (replaceConnectives pairs cs).countP isWord ≤ cs.countP isWord ∧
      ((replaceConnectives pairs cs).countP isWord = cs.countP isWord →
        ∀ pair ∈ pairs, contains (spaced pair.1) cs = false) := by
  induction pairs generalizing cs with
  | nil => exact ⟨Nat.le_refl _, nofun⟩
  | cons pair pairs ih =>
      obtain ⟨hword, hmark⟩ := hpairs pair List.mem_cons_self
      have hletters : 0 < (spaced pair.1).countP isWord := by
        have hall : ∀ word ∈ connectiveWords, 0 < (spaced word).countP isWord := by decide
        exact hall pair.1 hword
      have hwordless : (spaced pair.2).countP isWord = 0 := by
        have hall : ∀ mark ∈ connectiveMarks, (spaced mark).countP isWord = 0 := by decide
        exact hall pair.2 hmark
      obtain ⟨count, hcount, hzero⟩ := @exists_countP_replace (spaced pair.1) (spaced pair.2)
        (spaced_ne_nil pair.1) isWord cs
      rw [hwordless, Nat.mul_zero] at hcount
      obtain ⟨hle, hnone⟩ := ih
        (fun other hother => hpairs other (List.mem_cons_of_mem pair hother))
        (replace (spaced pair.1) (spaced pair.2) cs)
      have hstep : replaceConnectives (pair :: pairs) cs =
          replaceConnectives pairs (replace (spaced pair.1) (spaced pair.2) cs) := rfl
      rw [hstep]
      refine ⟨by omega, fun hsame => ?_⟩
      have hproduct : count * (spaced pair.1).countP isWord = 0 := by omega
      have hfirst := hzero ((Nat.mul_eq_zero.mp hproduct).resolve_right (Nat.ne_of_gt hletters))
      rw [replace_of_contains_eq_false hfirst] at hnone hsame
      exact List.forall_mem_cons.mpr ⟨hfirst, hnone hsame⟩

theorem replaceConnectives_of_contains_eq_false {pairs : List (List Char × List Char)}
    {cs : List Char} (h : ∀ pair ∈ pairs, contains (spaced pair.1) cs = false) :
    replaceConnectives pairs cs = cs := by
  induction pairs with
  | nil => rfl
  | cons pair pairs ih =>
      rw [List.forall_mem_cons] at h
      rw [replaceConnectives, List.foldl_cons, replace_of_contains_eq_false h.1]
      exact ih h.2

/-- Whether every equals sign of a text is joined to another sign of an operator. -/
def EqualsJoined (cs : List Char) : Prop :=
  ∀ front rest, cs = front ++ '=' :: rest → joinsEquals front.getLast? = true ∨ '=' ∈ rest.head?

/-- Doubling leaves a text as it is or makes it longer. -/
theorem doubleEqualsAfter_eq_self_or (prev : Option Char) (cs : List Char) :
    doubleEqualsAfter prev cs = cs ∨ cs.length < (doubleEqualsAfter prev cs).length := by
  induction cs generalizing prev with
  | nil => exact .inl rfl
  | cons c cs ih =>
      rw [doubleEqualsAfter]
      split
      · right
        rcases ih (some c) with hsame | hlonger
        · rw [hsame]
          exact Nat.lt_succ_self _
        · exact Nat.lt_succ_of_lt (Nat.succ_lt_succ hlonger)
      · rcases ih (some c) with hsame | hlonger
        · exact .inl (by rw [hsame])
        · exact .inr (Nat.succ_lt_succ hlonger)

theorem doubleEqualsAfter_eq_self_iff {prev : Option Char} {cs : List Char} :
    doubleEqualsAfter prev cs = cs ↔ ∀ front rest, cs = front ++ '=' :: rest →
      joinsEquals (front.getLast?.or prev) = true ∨ '=' ∈ rest.head? := by
  induction cs generalizing prev with
  | nil => exact ⟨fun _ front rest h => absurd h (by simp), fun _ => rfl⟩
  | cons c cs ih =>
      rw [doubleEqualsAfter]
      cases hlone : c == '=' && !joinsEquals prev && !List.isPrefixOf ['='] cs with
      | true =>
          simp only [Bool.and_eq_true, beq_iff_eq, Bool.not_eq_true', isPrefixOf_singleton] at hlone
          obtain ⟨⟨rfl, hprev⟩, hnext⟩ := hlone
          rw [if_pos rfl]
          constructor
          · intro hsame
            have htail := (List.cons.inj hsame).2
            rcases doubleEqualsAfter_eq_self_or (some '=') cs with hself | hlonger
            · rw [hself] at htail
              exact absurd htail (List.cons_ne_self _ _)
            · have hlength := congrArg List.length htail
              rw [List.length_cons] at hlength
              omega
          · intro hjoined
            have hfirst := hjoined [] cs rfl
            simp [hprev, beq_eq_false_iff_ne.mp hnext] at hfirst
      | false =>
          rw [if_neg Bool.false_ne_true, List.cons_inj_right, ih]
          constructor
          · intro hjoined front rest hcut
            cases front with
            | nil =>
                obtain ⟨rfl, rfl⟩ := List.cons.inj hcut
                simpa [isPrefixOf_singleton, or_iff_not_imp_left] using hlone
            | cons d front =>
                obtain ⟨rfl, htail⟩ := List.cons.inj hcut
                rw [getLast?_cons_or]
                exact hjoined front rest htail
          · intro hjoined front rest hcut
            have hcons := hjoined (c :: front) rest (by rw [hcut, List.cons_append])
            rwa [getLast?_cons_or] at hcons

theorem doubleEquals_eq_self_iff {cs : List Char} : doubleEquals cs = cs ↔ EqualsJoined cs := by
  have hafter := @doubleEqualsAfter_eq_self_iff none cs
  simp only [Option.or_none] at hafter
  exact hafter

theorem countP_doubleEquals (cs : List Char) :
    (doubleEquals cs).countP isWord = cs.countP isWord := by
  have hafter : ∀ prev, (doubleEqualsAfter prev cs).countP isWord = cs.countP isWord := by
    have hequals : isWord '=' = false := by decide
    induction cs with
    | nil => exact fun _ => rfl
    | cons c cs ih =>
        intro prev
        rw [doubleEqualsAfter]
        split
        · next hcondition =>
            have hc : c = '=' := by simp_all
            rw [List.countP_cons_of_neg, List.countP_cons, ih, List.countP_cons, hc]
            simp [hequals]
        · rw [List.countP_cons, ih, List.countP_cons]
  exact hafter none

/-- Connectives and operators are left alone exactly if there are none to replace: no
connective between two spaces, no equals sign that stands alone and no inequality sign. -/
theorem convertOperators_eq_self_iff {cs : List Char} :
    convertOperators cs = cs ↔ (∀ word ∈ connectiveWords, contains (spaced word) cs = false) ∧
      EqualsJoined cs ∧ contains ['<', '>'] cs = false := by
  have hwords : ∀ {motive : List Char → Prop},
      (∀ pair ∈ programPairs, motive pair.1) ↔ ∀ word ∈ connectiveWords, motive word := by
    intro motive
    have hmap : connectiveWords = programPairs.map Prod.fst := rfl
    rw [hmap, List.forall_mem_map]
  rw [← hwords, ← doubleEquals_eq_self_iff]
  constructor
  · intro hsame
    rw [convertOperators] at hsame
    have hunequal : ['<', '>'] ≠ [] := List.cons_ne_nil _ _
    -- No later pass restores a letter, so no connective is found.
    have hconnectives : ∀ pair ∈ programPairs, contains (spaced pair.1) cs = false := by
      obtain ⟨count, hcount, -⟩ := @exists_countP_replace ['<', '>'] ['!', '='] hunequal isWord
        (doubleEquals (replaceConnectives programPairs cs))
      have hletters : ['<', '>'].countP isWord = 0 ∧ ['!', '='].countP isWord = 0 := by decide
      rw [hsame, countP_doubleEquals, hletters.1, hletters.2] at hcount
      exact (countP_replaceConnectives replacing_programPairs cs).2 (by omega)
    rw [replaceConnectives_of_contains_eq_false hconnectives] at hsame
    -- Inequality signs are replaced by as many characters, so nothing is doubled.
    have hdoubled : doubleEquals cs = cs := by
      obtain ⟨count, hcount, -⟩ := @exists_countP_replace ['<', '>'] ['!', '='] hunequal
        (fun _ => true) (doubleEquals cs)
      have hlength : (doubleEquals cs).length = cs.length := by
        simpa [hsame] using hcount.symm
      exact (doubleEqualsAfter_eq_self_or none cs).resolve_right (Nat.not_lt.mpr hlength.le)
    rw [hdoubled] at hsame
    obtain ⟨count, hcount, hzero⟩ := @exists_countP_replace ['<', '>'] ['!', '='] hunequal
      (· == '<') cs
    have hless : ['<', '>'].countP (· == '<') = 1 ∧ ['!', '='].countP (· == '<') = 0 := by decide
    rw [hsame, hless.1, hless.2] at hcount
    exact ⟨hconnectives, hdoubled, hzero (by omega)⟩
  · rintro ⟨hconnectives, hdoubled, hunequal⟩
    rw [convertOperators, replaceConnectives_of_contains_eq_false hconnectives, hdoubled,
      replace_of_contains_eq_false hunequal]

/-! ## Names -/

theorem startsWord_afterWordRun (cs : List Char) : startsWord (afterWordRun cs) = false := by
  induction cs with
  | nil => rfl
  | cons c cs ih =>
      rw [afterWordRun, List.dropWhile_cons]
      split
      · exact ih
      · next hc => exact Bool.eq_false_iff.mpr hc

/-- A text goes on after a character that is in no word, or after a word. -/
theorem word_induction {motive : List Char → Prop} (nil : motive [])
    (separator : ∀ c rest, isWord c = false → motive rest → motive (c :: rest))
    (word : ∀ word rest, word ≠ [] → (∀ c ∈ word, isWord c = true) → startsWord rest = false →
      motive rest → motive (word ++ rest)) (cs : List Char) : motive cs := by
  match cs with
  | [] => exact nil
  | c :: rest =>
      cases hc : isWord c with
      | false => exact separator c rest hc (word_induction nil separator word rest)
      | true =>
          have hsplit := wordRun_append_afterWordRun (c :: rest)
          have hrun : wordRun (c :: rest) = c :: wordRun rest := by
            rw [wordRun, List.takeWhile_cons_of_pos hc, wordRun]
          have hshorter : (afterWordRun (c :: rest)).length < (c :: rest).length := by
            have hlength := congrArg List.length hsplit
            rw [hrun, List.length_append, List.length_cons] at hlength
            omega
          have hne : wordRun (c :: rest) ≠ [] := by
            rw [hrun]
            exact List.cons_ne_nil _ _
          rw [← hsplit]
          exact word _ _ hne (fun d hd => List.all_eq_true.mp List.all_takeWhile d hd)
            (startsWord_afterWordRun _) (word_induction nil separator word _)
termination_by cs.length
decreasing_by
  · exact Nat.lt_succ_self rest.length
  · exact hshorter

/-- A word at its place in a text. -/
structure Standing (cs front word rest : List Char) : Prop where
  cut : cs = front ++ (word ++ rest)
  before : ∀ c ∈ front.getLast?, isWord c = false
  letters : ∀ c ∈ word, isWord c = true
  after : startsWord rest = false

/-- Whether a word before the given text is taken for the name of a column. -/
def isName (word rest : List Char) : Bool :=
  startsPlain word && !List.isPrefixOf ['('] (skipBlanks rest) && !isConnective word

theorem wrapWord_eq (word rest : List Char) :
    wrapWord word rest = if isName word rest then columnRef word else word := rfl

theorem Standing.startsWord_append {cs front word rest : List Char}
    (h : Standing cs front word rest) (hname : isName word rest = true) (tail : List Char) :
    startsWord (word ++ tail) = true := by
  cases word with
  | nil => simp [isName, startsPlain] at hname
  | cons c word => exact h.letters c List.mem_cons_self

/-- A text is left as it is, or it is left as it is up to the first name. -/
theorem wrapWords_eq_self_or (cs : List Char) : wrapWords [] cs = cs ∨
    ∃ front word rest, Standing cs front word rest ∧ isName word rest = true ∧
      wrapWords [] cs = front ++ (columnRef word ++ wrapWords [] rest) := by
  induction cs using word_induction with
  | nil => exact .inl rfl
  | separator c cs hc ih =>
      rw [wrapWords_cons hc]
      rcases ih with hsame | ⟨front, word, rest, hstanding, hname, hwrapped⟩
      · exact .inl (by rw [hsame])
      · refine .inr ⟨c :: front, word, rest, ⟨?_, ?_, hstanding.letters, hstanding.after⟩, hname,
          ?_⟩
        · rw [hstanding.cut, List.cons_append]
        · intro d hd
          cases front with
          | nil =>
              obtain rfl : c = d := by simpa using hd
              exact hc
          | cons e front =>
              rw [List.getLast?_cons_cons] at hd
              exact hstanding.before d hd
        · rw [hwrapped, List.cons_append]
  | word word cs hne hword hcs ih =>
      rw [wrapWords_append hword hcs, wrapWord_eq]
      cases hname : isName word cs with
      | true => exact .inr ⟨[], word, cs, ⟨rfl, nofun, hword, hcs⟩, hname, rfl⟩
      | false =>
          rw [if_neg Bool.false_ne_true]
          rcases ih with hsame | ⟨front, later, rest, hstanding, hlater, hwrapped⟩
          · exact .inl (by rw [hsame])
          · refine .inr ⟨word ++ front, later, rest,
              ⟨?_, ?_, hstanding.letters, hstanding.after⟩, hlater, ?_⟩
            · rw [hstanding.cut, List.append_assoc]
            · -- A name cannot begin where the word before it has just ended.
              have hfront : front ≠ [] := by
                rintro rfl
                rw [hstanding.cut, List.nil_append, hstanding.startsWord_append hlater] at hcs
                cases hcs
              rw [List.getLast?_append_of_ne_nil word hfront]
              exact hstanding.before
            · rw [hwrapped, List.append_assoc]

/-- Where a word may start, a text is wrapped by what comes before and from there on. -/
theorem exists_wrapWords_append {front : List Char}
    (hfront : ∀ c ∈ front.getLast?, isWord c = false) (cs : List Char) :
    ∃ wrapped, wrapWords [] (front ++ cs) = wrapped ++ wrapWords [] cs := by
  induction front using word_induction with
  | nil => exact ⟨[], rfl⟩
  | separator c front hc ih =>
      have hlast : ∀ d ∈ front.getLast?, isWord d = false := by
        intro d hd
        apply hfront d
        rw [Option.mem_def] at hd ⊢
        rw [List.getLast?_cons, hd, Option.getD_some]
      obtain ⟨wrapped, hwrapped⟩ := ih hlast
      exact ⟨c :: wrapped, by rw [List.cons_append, wrapWords_cons hc, hwrapped, List.cons_append]⟩
  | word word front hne hword hstarts ih =>
      have hnil : front ≠ [] := by
        rintro rfl
        rw [List.append_nil] at hfront
        have hlast := hfront _ (List.getLast?_eq_some_getLast hne)
        rw [hword _ (List.getLast_mem hne)] at hlast
        cases hlast
      rw [List.getLast?_append_of_ne_nil word hnil] at hfront
      obtain ⟨wrapped, hwrapped⟩ := ih hfront
      have hrest : startsWord (front ++ cs) = false := by
        obtain ⟨c, front, rfl⟩ := List.exists_cons_of_ne_nil hnil
        exact hstarts
      refine ⟨wrapWord word (front ++ cs) ++ wrapped, ?_⟩
      rw [List.append_assoc, wrapWords_append hword hrest, hwrapped, List.append_assoc]

/-- Names before a mark are wrapped apart from what follows it, if no parenthesis follows. -/
theorem wrapWords_append_cons {mark : Char} {rest : List Char} (hmark : isWord mark = false)
    (hrest : ['('].isPrefixOf (skipBlanks (mark :: rest)) = false) (front : List Char) :
    wrapWords [] (front ++ mark :: rest) = wrapWords [] front ++ mark :: wrapWords [] rest := by
  have hopens : ∀ cs, ['('].isPrefixOf (skipBlanks (cs ++ mark :: rest)) =
      ['('].isPrefixOf (skipBlanks cs) := by
    intro cs
    induction cs with
    | nil => exact hrest
    | cons c cs ih =>
        rw [List.cons_append, skipBlanks, skipBlanks, List.dropWhile_cons, List.dropWhile_cons]
        split
        · exact ih
        · rw [isPrefixOf_singleton, isPrefixOf_singleton]
          rfl
  induction front using word_induction with
  | nil => exact wrapWords_cons hmark rest
  | separator c front hc ih =>
      rw [List.cons_append, wrapWords_cons hc, ih, wrapWords_cons hc, List.cons_append]
  | word word front hne hword hfront ih =>
      have hborder : startsWord (front ++ mark :: rest) = false := by
        cases front with
        | nil => exact hmark
        | cons c front => exact hfront
      rw [List.append_assoc, wrapWords_append hword hborder, ih, wrapWords_append hword hfront,
        wrapWord, wrapWord, hopens, List.append_assoc]

/-- Names before a quote are wrapped apart from what follows it. -/
theorem wrapWords_append_quote (front rest : List Char) :
    wrapWords [] (front ++ '\'' :: rest) = wrapWords [] front ++ '\'' :: wrapWords [] rest :=
  wrapWords_append_cons (by decide) rfl front

/-- A text without quotes is left alone exactly if no word in it is a name. -/
theorem wrapWords_eq_self_iff {cs : List Char} (hquote : '\'' ∉ cs) :
    wrapWords [] cs = cs ↔
      ∀ front word rest, Standing cs front word rest → isName word rest = false := by
  constructor
  · intro hsame front word rest hstanding
    rw [Bool.eq_false_iff]
    intro hname
    obtain ⟨wrapped, hwrapped⟩ := exists_wrapWords_append hstanding.before (word ++ rest)
    rw [← hstanding.cut, hsame, wrapWords_append hstanding.letters hstanding.after, wrapWord_eq,
      if_pos hname] at hwrapped
    apply hquote
    rw [hwrapped]
    simp [columnRef]
  · intro hnone
    rcases wrapWords_eq_self_or cs with hsame | ⟨front, word, rest, hstanding, hname, -⟩
    · exact hsame
    · rw [hnone front word rest hstanding] at hname
      cases hname

theorem startsWord_of_startsPlain {cs : List Char} (h : startsPlain cs = true) :
    startsWord cs = true := by
  cases cs with
  | nil => cases h
  | cons c cs =>
      rw [startsPlain, Bool.or_eq_true, beq_iff_eq] at h
      rcases h with halpha | rfl
      · have halphanum : c.isAlphanum = true := by rw [Char.isAlphanum, halpha, Bool.true_or]
        rw [startsWord, isWord, if_pos (toNat_lt_of_isAlphanum halphanum), halphanum, Bool.true_or]
      · show isWord '_' = true
        decide

/-- Trimming keeps a first character that is not blank. -/
theorem head?_trim {c : Char} (hc : isBlank c = false) (cs : List Char) :
    (trim (c :: cs)).head? = some c := by
  have htrim : trim (c :: cs) = ((c :: cs).reverse.dropWhile isBlank).reverse := by
    rw [trim, trimOf, trimStartOf, List.dropWhile_cons_of_neg (by simp [hc]), trimEndOf]
  have hstart : trim (c :: cs) <+: c :: cs := by
    rw [htrim, ← List.reverse_suffix, List.reverse_reverse]
    exact List.dropWhile_suffix isBlank
  have hne : trim (c :: cs) ≠ [] := by
    rw [htrim, Ne, List.reverse_eq_nil_iff, List.dropWhile_eq_nil_iff]
    intro hblank
    rw [hblank c (by simp)] at hc
    cases hc
  rcases List.prefix_cons_iff.mp hstart with hnil | ⟨rest, hrest, -⟩
  · exact absurd hnil hne
  · rw [hrest, List.head?_cons]

/-- A text that begins with a word is wrapped unless it has columns already. -/
theorem isWrapped_of_startsWord {cs : List Char} (h : startsWord cs = true) :
    isWrapped cs = contains ['c', 'o', 'l', '('] cs := by
  cases cs with
  | nil => cases h
  | cons c cs =>
      have hword : isWord c = true := h
      have hquote : (c == '\'') = false := beq_eq_false_iff_ne.mpr (ne_of_isWord hword (by decide))
      have hdouble : (c == '"') = false := beq_eq_false_iff_ne.mpr (ne_of_isWord hword (by decide))
      rw [isWrapped, isPrefixOf_singleton, isPrefixOf_singleton,
        head?_trim (isBlank_of_isWord hword)]
      simp [hquote, hdouble]

/-! ## Calls -/

/-- A text that calls nothing: no parenthesis opens right after a word. -/
def Callless (cs : List Char) : Prop :=
  ∀ front c rest, cs = front ++ c :: '(' :: rest → isWord c = false

theorem Callless.of_append {front rest : List Char} (h : Callless (front ++ rest)) :
    Callless rest := by
  intro before c after hcut
  exact h (front ++ before) c after (by rw [hcut, List.append_assoc])

theorem Callless.contains_col {cs : List Char} (h : Callless cs) :
    contains ['c', 'o', 'l', '('] cs = false := by
  rw [Bool.eq_false_iff, Ne, contains_iff]
  rintro ⟨front, rest, hcut⟩
  have hletter := h (front ++ ['c', 'o']) 'l' rest (by rw [← hcut]; simp)
  exact absurd hletter (by decide)

theorem append_cons_eq_dropLast {word : List Char} (hne : word ≠ []) (c : Char)
    (rest : List Char) : word ++ c :: rest = word.dropLast ++ word.getLast hne :: c :: rest := by
  rw [List.append_cons _ (word.getLast hne), List.dropLast_concat_getLast hne]

/-- Where nothing is called, the only calls after wrapping are the wrapped names, and these
are kept. -/
theorem Callless.convertCalls_wrapWords {cs : List Char} (h : Callless cs) {tail : List Char}
    (htail : startsWord tail = false) (hopen : '(' ∉ tail.head?) :
    convertCalls (wrapWords [] cs ++ tail) = wrapWords [] cs ++ convertCalls tail := by
  induction cs using word_induction with
  | nil => rfl
  | separator c cs hc ih =>
      have hlater := ih (Callless.of_append (show Callless ([c] ++ cs) from h))
      rw [wrapWords_cons hc, List.cons_append, convertCalls_cons hc, hlater, List.cons_append]
  | word word cs hne hword hcs ih =>
      have hlater := ih h.of_append
      rw [wrapWords_append hword hcs, wrapWord_eq, List.append_assoc, List.append_assoc]
      split
      · rw [convertCalls_columnRef hword, hlater]
      · -- What follows the word is the tail, or a character that neither the word nor a call
        -- goes on with.
        have hborder : startsWord (wrapWords [] cs ++ tail) = false ∧
            '(' ∉ (wrapWords [] cs ++ tail).head? := by
          cases cs with
          | nil => exact ⟨htail, hopen⟩
          | cons c cs =>
              have hc : isWord c = false := hcs
              rw [wrapWords_cons hc]
              refine ⟨hc, ?_⟩
              intro hmem
              obtain rfl : c = '(' := by simpa using hmem
              have hlast := h _ _ cs (append_cons_eq_dropLast hne '(' cs)
              rw [hword _ (List.getLast_mem hne)] at hlast
              cases hlast
        rw [convertCalls_append hword hborder.1 hborder.2, hlater]

/-- A text goes on after a character that is in no word, after a word that is not called, after a
word and a parenthesis that is not closed, or after a call. -/
theorem call_induction {motive : List Char → Prop} (nil : motive [])
    (separator : ∀ c rest, isWord c = false → motive rest → motive (c :: rest))
    (word : ∀ word rest, word ≠ [] → (∀ c ∈ word, isWord c = true) → startsWord rest = false →
      '(' ∉ rest.head? → motive rest → motive (word ++ rest))
    (unclosed : ∀ word rest, word ≠ [] → (∀ c ∈ word, isWord c = true) →
      upTo? withinLine ([')'].isPrefixOf) rest = none → motive rest → motive (word ++ '(' :: rest))
    (call : ∀ word inner rest, word ≠ [] → (∀ c ∈ word, isWord c = true) → ')' ∉ inner →
      '\n' ∉ inner → motive rest → motive (word ++ '(' :: (inner ++ ')' :: rest)))
    (cs : List Char) : motive cs := by
  induction hlength : cs.length using Nat.strong_induction_on generalizing cs with
  | _ length ih =>
      have hshorter : ∀ rest : List Char, rest.length < cs.length → motive rest :=
        fun rest hrest => ih rest.length (hlength ▸ hrest) rest rfl
      cases cs using word_induction with
      | nil => exact nil
      | separator c rest hc _ => exact separator c rest hc (hshorter rest (Nat.lt_succ_self _))
      | word letters rest hne hletters hrest _ =>
          have hpositive := List.length_pos_iff.mpr hne
          by_cases hopen : '(' ∈ rest.head?
          · obtain ⟨after, rfl⟩ := List.head?_eq_some_iff.mp hopen
            cases hclosed : upTo? withinLine ([')'].isPrefixOf) after with
            | none =>
                refine unclosed letters after hne hletters hclosed (hshorter after ?_)
                simp only [List.length_append, List.length_cons]
                omega
            | some inner =>
                obtain ⟨later, rfl, hinner, hline⟩ := upTo?_closing_eq_some_iff.mp hclosed
                refine call letters inner later hne hletters hinner hline (hshorter later ?_)
                simp only [List.length_append, List.length_cons]
                omega
          · refine word letters rest hne hletters hrest hopen (hshorter rest ?_)
            rw [List.length_append]
            omega

/-- A text whose calls are closed in their lines. -/
def ClosesCalls (cs : List Char) : Prop :=
  ∀ front c rest, cs = front ++ c :: '(' :: rest → isWord c = true →
    ∃ inner later, rest = inner ++ ')' :: later ∧ ')' ∉ inner ∧ '\n' ∉ inner

theorem ClosesCalls.of_append {front rest : List Char} (h : ClosesCalls (front ++ rest)) :
    ClosesCalls rest := by
  intro before c after hcut
  exact h (front ++ before) c after (by rw [hcut, List.append_assoc])

/-- A text whose calls are closed is converted apart from what follows a quote. -/
theorem ClosesCalls.convertCalls_append {cs : List Char} (h : ClosesCalls cs) (tail : List Char) :
    convertCalls (cs ++ '\'' :: tail) = convertCalls cs ++ '\'' :: convertCalls tail := by
  have hquote : isWord '\'' = false := by decide
  induction cs using call_induction with
  | nil => exact convertCalls_cons hquote tail
  | separator c rest hc ih =>
      have hlater := ih (ClosesCalls.of_append (show ClosesCalls ([c] ++ rest) from h))
      rw [List.cons_append, convertCalls_cons hc, hlater, convertCalls_cons hc, List.cons_append]
  | word word rest _ hword hrest hopen ih =>
      have hborder : startsWord (rest ++ '\'' :: tail) = false ∧
          '(' ∉ (rest ++ '\'' :: tail).head? := by
        cases rest with
        | nil => exact ⟨hquote, by simp⟩
        | cons c rest => exact ⟨hrest, hopen⟩
      rw [List.append_assoc, Spark.convertCalls_append hword hborder.1 hborder.2, ih h.of_append,
        Spark.convertCalls_append hword hrest hopen, List.append_assoc]
  | unclosed word rest hne hword hunclosed ih =>
      have hlast := hword _ (List.getLast_mem hne)
      obtain ⟨inner, later, hcut⟩ := h _ _ rest (append_cons_eq_dropLast hne '(' rest) hlast
      rw [upTo?_closing_eq_some_iff.mpr ⟨later, hcut⟩] at hunclosed
      cases hunclosed
  | call word inner rest hne hword hinner hline ih =>
      have hlater := ih (@ClosesCalls.of_append (word ++ '(' :: (inner ++ [')'])) rest
        (by simpa using h))
      rw [List.append_assoc, List.cons_append, List.append_assoc, List.cons_append,
        convertCalls_call hword hne hinner hline, hlater,
        convertCalls_call hword hne hinner hline, List.append_assoc]

end QlikMigration.Spark
