import Mathlib.Data.List.Chain
import Mathlib.Data.List.TakeWhile
import QlikMigration.Proofs.Occurrence
import QlikMigration.Text.Cut

/-!
# Plain text

The names, paths, values and expressions of a well-behaved statement are plain:
they hold ASCII characters only, no semicolon, no line end, no comment, and none
of the words that could be taken for a clause. This module says what plain means
as a test that can be run, and derives from it what the searches need: a plain
text lacks the letters of every reserved word.

Around a phrase, a plain text that is neither empty nor begun or ended by white
space, any white space may stand; trimming and skipping then give the phrase back.
-/

namespace QlikMigration.Script

open QlikMigration.Text

/-! ## White space around a text -/

/-- Nothing but white space. -/
def Blanks (cs : List Char) : Prop :=
  ∀ c ∈ cs, isBlank c = true

/-- A text that does not begin with white space. -/
def Flush (cs : List Char) : Prop :=
  ∀ c ∈ cs.head?, isBlank c = false

/-- A text on one line with no white space at either end. -/
structure Solid (cs : List Char) : Prop where
  ne_nil : cs ≠ []
  flush : Flush cs
  last : ∀ c ∈ cs.getLast?, isBlank c = false
  oneLine : '\n' ∉ cs

theorem flush_nil : Flush [] :=
  fun _ hc => absurd hc (by simp)

theorem Flush.append {front : List Char} (hfront : Flush front) (hne : front ≠ [])
    (back : List Char) : Flush (front ++ back) := by
  intro c hc
  rw [List.head?_append_of_ne_nil front hne] at hc
  exact hfront c hc

theorem Flush.dropWhile_isBlank {cs : List Char} (h : Flush cs) : cs.dropWhile isBlank = cs := by
  cases cs with
  | nil => rfl
  | cons c cs => exact List.dropWhile_cons_of_neg (by simp [h c rfl])

namespace Blanks

variable {gap cs : List Char}

theorem nil : Blanks [] :=
  fun _ hc => absurd hc (by simp)

theorem singleton {c : Char} (hc : isBlank c = true) : Blanks [c] :=
  List.forall_mem_singleton.mpr hc

theorem append {front back : List Char} (hfront : Blanks front) (hback : Blanks back) :
    Blanks (front ++ back) := by
  intro c hc
  rcases List.mem_append.mp hc with hmem | hmem
  · exact hfront c hmem
  · exact hback c hmem

theorem wordless (hgap : Blanks gap) : Wordless gap :=
  fun c hc => isWord_of_isBlank (hgap c hc)

theorem wordless_append_singleton (hgap : Blanks gap) {c : Char} (hc : isWord c = false) :
    Wordless (gap ++ [c]) :=
  List.forall_mem_append.mpr ⟨hgap.wordless, List.forall_mem_singleton.mpr hc⟩

theorem not_mem (hgap : Blanks gap) {c : Char} (hc : isBlank c = false) : c ∉ gap := by
  intro hmem
  rw [hgap c hmem] at hc
  exact Bool.false_ne_true hc.symm

theorem dropWhile_append (hgap : Blanks gap) (hcs : Flush cs) :
    (gap ++ cs).dropWhile isBlank = cs := by
  rw [List.dropWhile_append_of_pos hgap, hcs.dropWhile_isBlank]

theorem takeWhile_append (hgap : Blanks gap) (hcs : Flush cs) :
    (gap ++ cs).takeWhile isBlank = gap := by
  rw [List.takeWhile_append_of_pos hgap]
  cases cs with
  | nil => simp
  | cons c cs => simp [hcs c rfl]

theorem skipBlanks_append (hgap : Blanks gap) (hcs : Flush cs) : skipBlanks (gap ++ cs) = cs :=
  hgap.dropWhile_append hcs

theorem afterBlanks?_append (hgap : Blanks gap) (hne : gap ≠ []) (hcs : Flush cs) :
    afterBlanks? (gap ++ cs) = some cs := by
  obtain ⟨c, gap, rfl⟩ := List.exists_cons_of_ne_nil hne
  have hrest : Blanks gap := fun d hd => hgap d (List.mem_cons_of_mem c hd)
  simp [afterBlanks?, hgap c List.mem_cons_self, hrest.dropWhile_append hcs]

end Blanks

theorem afterBlanks?_eq_some_iff {cs rest : List Char} :
    afterBlanks? cs = some rest ↔ ∃ gap, Blanks gap ∧ gap ≠ [] ∧ Flush rest ∧ cs = gap ++ rest := by
  constructor
  · intro h
    cases cs with
    | nil => cases h
    | cons c cs =>
        rw [afterBlanks?] at h
        by_cases hc : isBlank c = true
        · rw [if_pos hc, Option.some.injEq] at h
          refine ⟨c :: cs.takeWhile isBlank, ?_, List.cons_ne_nil _ _, ?_, ?_⟩
          · intro d hd
            rcases List.mem_cons.mp hd with rfl | hmem
            · exact hc
            · exact List.mem_takeWhile_imp hmem
          · intro d hd
            have hhead := List.head?_dropWhile_not isBlank cs
            rw [h, Option.mem_def.mp hd] at hhead
            exact hhead
          · rw [← h, List.cons_append, List.takeWhile_append_dropWhile]
        · rw [if_neg hc] at h
          cases h
  · rintro ⟨gap, hgap, hne, hrest, rfl⟩
    exact hgap.afterBlanks?_append hne hrest

/-- A word that spells capital letters is not empty and does not begin with white space. -/
theorem Spells.flush_append {letters word : List Char} (h : Spells letters word)
    (hcapital : Capital letters) (rest : List Char) : Flush (word ++ rest) := by
  cases h with
  | nil => exact absurd rfl hcapital.ne_nil
  | cons hc _ =>
      intro d hd
      obtain rfl : _ = d := by simpa using hd
      exact isBlank_of_letterMatches (hcapital.upper _ List.mem_cons_self) hc

/-- Two keywords are found where words spell them with white space between. -/
theorem afterPair?_eq_some_iff {first second : Keyword} {cs rest : List Char} :
    afterPair? first second cs = some rest ↔
      ∃ front gap back, Spells first.letters front ∧ Blanks gap ∧ gap ≠ [] ∧
        Spells second.letters back ∧ cs = front ++ (gap ++ (back ++ rest)) := by
  rw [afterPair?, afterSpaced?]
  constructor
  · intro h
    obtain ⟨tail, hspaced, hsecond⟩ := Option.bind_eq_some_iff.mp h
    obtain ⟨spaced, hfirst, hblanks⟩ := Option.bind_eq_some_iff.mp hspaced
    obtain ⟨front, hfront, rfl⟩ := afterLetters?_eq_some_iff.mp hfirst
    obtain ⟨gap, hgap, hne, -, rfl⟩ := afterBlanks?_eq_some_iff.mp hblanks
    obtain ⟨back, hback, rfl⟩ := afterLetters?_eq_some_iff.mp hsecond
    exact ⟨front, gap, back, hfront, hgap, hne, hback, rfl⟩
  · rintro ⟨front, gap, back, hfront, hgap, hne, hback, rfl⟩
    have hfirst : after? first (front ++ (gap ++ (back ++ rest))) = some (gap ++ (back ++ rest)) :=
      afterLetters?_eq_some_iff.mpr ⟨front, hfront, rfl⟩
    rw [hfirst, Option.bind_some,
      hgap.afterBlanks?_append hne (hback.flush_append second.capital rest), Option.bind_some]
    exact afterLetters?_eq_some_iff.mpr ⟨back, hback, rfl⟩

/-- Dropping characters of a class ends at the latest at a character that is not of the class. -/
theorem dropWhile_append_cons {p : Char → Bool} {mark : Char} (hmark : p mark = false)
    (cs rest : List Char) :
    (cs ++ mark :: rest).dropWhile p = cs.dropWhile p ++ mark :: rest := by
  rw [List.dropWhile_append]
  split
  · next hall =>
      rw [List.isEmpty_iff.mp hall, List.dropWhile_cons_of_neg (by simp [hmark]), List.nil_append]
  · rfl

theorem trimEndOf_append_of_pos {p : Char → Bool} {cs tail : List Char}
    (htail : ∀ c ∈ tail, p c = true) (hlast : ∀ c ∈ cs.getLast?, p c = false) :
    trimEndOf p (cs ++ tail) = cs := by
  have hreverse : ∀ c ∈ tail.reverse, p c = true := by simpa using htail
  rw [trimEndOf, List.reverse_append, List.dropWhile_append_of_pos hreverse]
  cases hcs : cs.reverse with
  | nil => simpa using hcs
  | cons c rest =>
      have hc : p c = false := hlast c (by rw [← List.head?_reverse, hcs]; rfl)
      rw [List.dropWhile_cons_of_neg (by simp [hc]), ← hcs, List.reverse_reverse]

/-- What is taken away at the ends of a text goes only up to an end that stays. -/
theorem trimOf_append_singleton {p : Char → Bool} {c : Char} (hc : p c = false) (cs : List Char) :
    trimOf p (cs ++ [c]) = cs.dropWhile p ++ [c] := by
  have hlast : ∀ d ∈ (cs.dropWhile p ++ [c]).getLast?, p d = false := by
    intro d hd
    obtain rfl : c = d := by simpa using hd
    exact hc
  rw [trimOf, trimStartOf, dropWhile_append_cons hc]
  simpa using trimEndOf_append_of_pos (List.forall_mem_nil _) hlast

/-- A text is another one without the characters of a class around it: only such characters
stand before and after it, and it neither begins nor ends with one. -/
structure Stripped (p : Char → Bool) (cs inner : List Char) : Prop where
  around : ∃ front back, cs = front ++ (inner ++ back) ∧ (∀ c ∈ front, p c = true) ∧
    ∀ c ∈ back, p c = true
  head : ∀ c ∈ inner.head?, p c = false
  last : ∀ c ∈ inner.getLast?, p c = false

theorem eq_false_of_mem_head?_dropWhile {p : Char → Bool} (cs : List Char) :
    ∀ c ∈ (cs.dropWhile p).head?, p c = false := by
  intro c hc
  have hhead := List.head?_dropWhile_not p cs
  rw [Option.mem_def.mp hc] at hhead
  exact hhead

theorem stripped_trimOf (p : Char → Bool) (cs : List Char) : Stripped p cs (trimOf p cs) := by
  have hback : cs.dropWhile p =
      trimOf p cs ++ ((cs.dropWhile p).reverse.takeWhile p).reverse := by
    rw [trimOf, trimStartOf, trimEndOf, ← List.reverse_append, List.takeWhile_append_dropWhile,
      List.reverse_reverse]
  refine ⟨⟨cs.takeWhile p, ((cs.dropWhile p).reverse.takeWhile p).reverse, ?_, ?_, ?_⟩, ?_, ?_⟩
  · rw [← hback, List.takeWhile_append_dropWhile]
  · exact fun c hc => List.mem_takeWhile_imp hc
  · exact fun c hc => List.mem_takeWhile_imp (List.mem_reverse.mp hc)
  · intro c hc
    refine eq_false_of_mem_head?_dropWhile cs c ?_
    rw [hback, List.head?_append, Option.mem_def.mp hc]
    rfl
  · intro c hc
    rw [trimOf, trimStartOf, trimEndOf, List.getLast?_reverse] at hc
    exact eq_false_of_mem_head?_dropWhile _ c hc

/-- What is left of a text is determined by what is taken away. -/
theorem trimOf_eq_iff {p : Char → Bool} {cs inner : List Char} :
    trimOf p cs = inner ↔ Stripped p cs inner := by
  constructor
  · rintro rfl
    exact stripped_trimOf p cs
  · rintro ⟨⟨front, back, rfl, hfront, hback⟩, hhead, hlast⟩
    rw [trimOf, trimStartOf, List.dropWhile_append_of_pos hfront]
    cases inner with
    | nil =>
        rw [List.nil_append, List.dropWhile_eq_nil_iff.mpr hback]
        rfl
    | cons c inner =>
        have hc : p c = false := hhead c rfl
        rw [List.cons_append, List.dropWhile_cons_of_neg (by simp [hc]), ← List.cons_append]
        exact trimEndOf_append_of_pos hback hlast

/-- A text without white space is solid. -/
theorem solid_of_unblank {cs : List Char} (hne : cs ≠ []) (h : ∀ c ∈ cs, isBlank c = false) :
    Solid cs where
  ne_nil := hne
  flush c hc := h c (List.mem_of_mem_head? hc)
  last c hc := h c (List.mem_of_mem_getLast? hc)
  oneLine hmem := absurd (h '\n' hmem) (by decide)

theorem solid_singleton {c : Char} (hc : isBlank c = false) : Solid [c] :=
  solid_of_unblank (List.cons_ne_nil c []) (List.forall_mem_singleton.mpr hc)

/-- Capital letters have no white space among them. -/
theorem Capital.solid {letters : List Char} (h : Capital letters) : Solid letters := by
  refine solid_of_unblank h.ne_nil fun c hc => ?_
  by_contra hblank
  rw [Bool.not_eq_false] at hblank
  have hall : ∀ n ∈ blankCodes, (Char.ofNat n).isUpper = false := by decide
  have hcode := hall c.toNat (toNat_mem_blankCodes hblank)
  rw [Char.ofNat_toNat, h.upper c hc] at hcode
  exact Bool.false_ne_true hcode.symm

theorem Keyword.solid (keyword : Keyword) : Solid keyword.letters :=
  keyword.capital.solid

/-- Trimming takes away the white space around a solid text and nothing else. -/
theorem Solid.trim_append {cs : List Char} (hcs : Solid cs) {lead trail : List Char}
    (hlead : Blanks lead) (htrail : Blanks trail) : trim (lead ++ (cs ++ trail)) = cs := by
  rw [trim, trimOf, trimStartOf, hlead.dropWhile_append (hcs.flush.append hcs.ne_nil trail)]
  exact trimEndOf_append_of_pos htrail hcs.last

theorem Solid.trim_append_right {cs : List Char} (hcs : Solid cs) {trail : List Char}
    (htrail : Blanks trail) : trim (cs ++ trail) = cs :=
  hcs.trim_append Blanks.nil htrail

theorem Solid.trim_eq_self {cs : List Char} (hcs : Solid cs) : trim cs = cs := by
  simpa using hcs.trim_append_right Blanks.nil

/-- Text before a solid one makes a solid one, if it begins like one. -/
theorem Solid.append_left {front cs : List Char} (hcs : Solid cs) (hfront : Flush front)
    (hline : '\n' ∉ front) : Solid (front ++ cs) where
  ne_nil := by simp [hcs.ne_nil]
  flush := by
    cases front with
    | nil => simpa using hcs.flush
    | cons c front => exact hfront.append (List.cons_ne_nil c front) cs
  last := by
    rw [List.getLast?_append_of_ne_nil front hcs.ne_nil]
    exact hcs.last
  oneLine := by
    rw [List.mem_append]
    exact not_or_intro hline hcs.oneLine

/-! ## Plain texts -/

/-- The words that may not occur in a plain text. -/
def reservedWords : List Keyword :=
  [.load, .fromSource, .resident, .inlineRows, .whereRows, .group, .order, .distinct, .join,
   .mapping, .remark, .letVariable, .setVariable]

/-- Whether capital letters occur in a text, in any case. -/
def mentions (letters cs : List Char) : Bool :=
  contains letters (cs.map Char.toUpper)

/-- Whether a text is ASCII without semicolons, line ends, comments and reserved words. -/
def isPlain (cs : List Char) : Bool :=
  cs.all (fun c => c.toNat < 128 && c != ';' && c != '\n') && !contains ['/', '/'] cs &&
    reservedWords.all fun keyword => !mentions keyword.letters cs

/-- Whether no white space stands at either end of a text. -/
def isTrimmed (cs : List Char) : Bool :=
  cs.head?.all (fun c => !isBlank c) && cs.getLast?.all fun c => !isBlank c

theorem isTrimmed_iff {cs : List Char} :
    isTrimmed cs = true ↔ Flush cs ∧ ∀ c ∈ cs.getLast?, isBlank c = false := by
  simp only [isTrimmed, Bool.and_eq_true, Option.all_eq_true, Bool.not_eq_true']
  exact Iff.rfl

theorem solid_of_isTrimmed {cs : List Char} (hne : cs ≠ []) (htrimmed : isTrimmed cs = true)
    (honeLine : '\n' ∉ cs) : Solid cs :=
  ⟨hne, (isTrimmed_iff.mp htrimmed).1, (isTrimmed_iff.mp htrimmed).2, honeLine⟩

/-- A plain text that is not empty and has no white space at its ends. -/
structure Phrase where
  chars : List Char
  plain : isPlain chars = true
  ne_nil : chars ≠ []
  trimmed : isTrimmed chars = true
  deriving DecidableEq

theorem isPrefixOf_of_contains_eq_false {part cs tail : List Char}
    (h : contains part cs = false) (htail : tail <:+ cs) : part.isPrefixOf tail = false := by
  induction cs with
  | nil =>
      rw [List.suffix_nil.mp htail]
      cases part with
      | nil => simp [contains] at h
      | cons c part => rfl
  | cons c cs ih =>
      rw [contains, Bool.or_eq_false_iff] at h
      rcases List.suffix_cons_iff.mp htail with rfl | hsuffix
      · exact h.1
      · exact ih h.2 hsuffix

/-- An ASCII character matches the capital form of its own letter only. -/
theorem letterMatches_of_ascii {letter c : Char} (hc : c.toNat < 128) :
    letterMatches letter c = (c.toUpper == letter) := by
  have hlong : (c.toNat == 0x17F) = false := by simp; omega
  have hkelvin : (c.toNat == 0x212A) = false := by simp; omega
  have hdotless : (c.toNat == 0x131) = false := by simp; omega
  have hdotted : (c.toNat == 0x130) = false := by simp; omega
  simp [letterMatches, hlong, hkelvin, hdotless, hdotted]

theorem isSome_afterLetters? {letters cs : List Char} (hascii : ∀ c ∈ cs, c.toNat < 128) :
    (afterLetters? letters cs).isSome = letters.isPrefixOf (cs.map Char.toUpper) := by
  induction letters generalizing cs with
  | nil => rfl
  | cons letter letters ih =>
      cases cs with
      | nil => rfl
      | cons c cs =>
          rw [List.forall_mem_cons] at hascii
          have hlater := ih hascii.2
          rw [afterLetters?, letterMatches_of_ascii hascii.1]
          by_cases hletter : c.toUpper = letter
          · rw [if_pos (beq_iff_eq.mpr hletter), hlater]
            simp [hletter]
          · have hother : ¬ letter = c.toUpper := fun heq => hletter heq.symm
            rw [if_neg (fun heq => hletter (beq_iff_eq.mp heq))]
            simp [List.isPrefixOf, hother]

/-- An ASCII word spells its own letters in capitals only. -/
theorem spells_iff_of_ascii {letters word : List Char} (hascii : ∀ c ∈ word, c.toNat < 128) :
    Spells letters word ↔ word.map Char.toUpper = letters :=
  spells_iff fun _ _ c hc => letterMatches_of_ascii (hascii c hc)

/-- An ASCII text that does not mention letters lacks them. -/
theorem lacks_of_mentions_eq_false {letters cs : List Char} (hascii : ∀ c ∈ cs, c.toNat < 128)
    (h : mentions letters cs = false) : Lacks letters cs := by
  intro part hpart
  rw [← Option.not_isSome_iff_eq_none, isSome_afterLetters? fun c hc => hascii c (hpart.subset hc),
    isPrefixOf_of_contains_eq_false h (hpart.map Char.toUpper)]
  exact Bool.false_ne_true

theorem Keyword.ascii_letters (keyword : Keyword) : ∀ c ∈ keyword.letters, c.toNat < 128 := by
  cases keyword <;> simp [Keyword.letters]

/-- A reserved word does not occur in another keyword. -/
theorem Keyword.lacks_of_ne {reserved keyword : Keyword} (hreserved : reserved ∈ reservedWords)
    (hne : keyword ≠ reserved) : Lacks reserved.letters keyword.letters := by
  have hmentions : ∀ other ∈ reservedWords,
      keyword ≠ other → mentions other.letters keyword.letters = false := by
    cases keyword <;> decide +kernel
  exact lacks_of_mentions_eq_false keyword.ascii_letters (hmentions reserved hreserved hne)

/-! ## Texts without comments -/

/-- No two slashes stand side by side. -/
def Unslashed (cs : List Char) : Prop :=
  cs.IsChain fun c d => ¬(c = '/' ∧ d = '/')

theorem unslashed_of_contains_eq_false {cs : List Char} (h : contains ['/', '/'] cs = false) :
    Unslashed cs := by
  induction cs with
  | nil => exact List.isChain_nil
  | cons c cs ih =>
      rw [contains, Bool.or_eq_false_iff] at h
      refine List.isChain_cons.mpr ⟨?_, ih h.2⟩
      rintro d hd ⟨rfl, rfl⟩
      cases cs with
      | nil => simp at hd
      | cons e cs =>
          obtain rfl : e = '/' := by simpa using hd
          simp [List.isPrefixOf] at h

theorem unslashed_of_not_mem {cs : List Char} (h : '/' ∉ cs) : Unslashed cs := by
  induction cs with
  | nil => exact List.isChain_nil
  | cons c cs ih =>
      rw [List.mem_cons, not_or] at h
      refine List.isChain_cons.mpr ⟨fun d _ hslashes => h.1 hslashes.1.symm, ih h.2⟩

theorem Unslashed.append {front back : List Char} (hfront : Unslashed front)
    (hback : Unslashed back) (hhead : '/' ∉ back.head?) : Unslashed (front ++ back) := by
  refine List.isChain_append.mpr ⟨hfront, hback, ?_⟩
  rintro c - d hd ⟨-, rfl⟩
  exact hhead hd

theorem Unslashed.append_of_not_mem {front back : List Char} (hback : Unslashed back)
    (hfront : '/' ∉ front) : Unslashed (front ++ back) := by
  refine List.isChain_append.mpr ⟨unslashed_of_not_mem hfront, hback, ?_⟩
  rintro c hc d - ⟨rfl, -⟩
  exact hfront (List.mem_of_mem_getLast? hc)

/-- A text without two slashes side by side is kept whole. -/
theorem Unslashed.before_eq_self {cs : List Char} (h : Unslashed cs) :
    before ['/', '/'] cs = cs := by
  induction cs with
  | nil => rfl
  | cons c cs ih =>
      obtain ⟨hnext, hrest⟩ := List.isChain_cons.mp h
      have hstart : ['/', '/'].isPrefixOf (c :: cs) = false := by
        cases cs with
        | nil => by_cases hc : '/' = c <;> simp [List.isPrefixOf]
        | cons d cs =>
            have hpair := hnext d rfl
            by_cases hc : '/' = c
            · have hd : ¬ '/' = d := fun hd => hpair ⟨hc.symm, hd.symm⟩
              simp [List.isPrefixOf, hc.symm, hd]
            · simp [List.isPrefixOf, hc]
      rw [before, hstart, if_neg Bool.false_ne_true, ih hrest]

namespace Phrase

variable (phrase : Phrase)

theorem all_chars : ∀ c ∈ phrase.chars, c.toNat < 128 ∧ c ≠ ';' ∧ c ≠ '\n' := by
  intro c hc
  have hplain := phrase.plain
  simp only [isPlain, Bool.and_eq_true, List.all_eq_true] at hplain
  simpa [and_assoc] using hplain.1.1 c hc

theorem ascii : ∀ c ∈ phrase.chars, c.toNat < 128 :=
  fun c hc => (phrase.all_chars c hc).1

theorem not_mem_semicolon : ';' ∉ phrase.chars :=
  fun hc => (phrase.all_chars _ hc).2.1 rfl

/-- A phrase lacks every reserved word. -/
theorem lacks {reserved : Keyword} (hreserved : reserved ∈ reservedWords) :
    Lacks reserved.letters phrase.chars := by
  have hplain := phrase.plain
  simp only [isPlain, Bool.and_eq_true, List.all_eq_true, Bool.not_eq_true'] at hplain
  exact lacks_of_mentions_eq_false phrase.ascii (hplain.2 reserved hreserved)

theorem unslashed : Unslashed phrase.chars := by
  have hplain := phrase.plain
  simp only [isPlain, Bool.and_eq_true, Bool.not_eq_true'] at hplain
  exact unslashed_of_contains_eq_false hplain.1.2

theorem solid : Solid phrase.chars :=
  solid_of_isTrimmed phrase.ne_nil phrase.trimmed fun hc => (phrase.all_chars _ hc).2.2 rfl

end Phrase

end QlikMigration.Script
