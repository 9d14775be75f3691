import Mathlib.Data.List.Forall2
import Mathlib.Data.List.Infix
import QlikMigration.Script.Keyword

/-!
# Where the letters of a keyword can occur

The clauses of a statement are found by searching the whole line for the letters
of a keyword. To know what such a search finds in a line that is put together
from parts, two properties of a part suffice. A text *lacks* letters if they
occur nowhere in it. A text *seals* letters if no occurrence of them starts in
it, whatever follows; this is what can be put together: a text that lacks the
letters and a separator after it seal them, because no letter of a keyword
matches a character that is not part of a word.

A recogniser that needs the letters at its position then passes over every text
that seals them.
-/

namespace QlikMigration.Script

open QlikMigration.Text

universe u

variable {α : Type u}

/-! ## Classes of characters -/

/-- The code points of white space. -/
def blankCodes : List Nat :=
  [0x20, 0x9, 0xA, 0xB, 0xC, 0xD, 0x1C, 0x1D, 0x1E, 0x1F, 0x85, 0xA0, 0x1680, 0x2000, 0x2001,
   0x2002, 0x2003, 0x2004, 0x2005, 0x2006, 0x2007, 0x2008, 0x2009, 0x200A, 0x2028, 0x2029,
   0x202F, 0x205F, 0x3000]

theorem toNat_mem_blankCodes {c : Char} (h : isBlank c = true) : c.toNat ∈ blankCodes := by
  simp only [isBlank, Bool.or_eq_true, Bool.and_eq_true, beq_iff_eq, decide_eq_true_eq] at h
  simp only [blankCodes, List.mem_cons, List.not_mem_nil, or_false]
  -- One range of codes at a time: together they are slow to decide.
  rcases h with ((((((((((h | h) | h) | h) | h) | h) | h) | h) | h) | h) | h) | h <;> omega

/-- White space is not part of a word. -/
theorem isWord_of_isBlank {c : Char} (h : isBlank c = true) : isWord c = false := by
  have hall : ∀ n ∈ blankCodes, isWord (Char.ofNat n) = false := by decide +kernel
  have hword := hall c.toNat (toNat_mem_blankCodes h)
  rwa [Char.ofNat_toNat] at hword

theorem ne_of_isWord {c d : Char} (hc : isWord c = true) (hd : isWord d = false) : c ≠ d := by
  rintro rfl
  rw [hc] at hd
  exact Bool.false_ne_true hd.symm

theorem isBlank_of_isWord {c : Char} (hc : isWord c = true) : isBlank c = false := by
  by_contra hblank
  exact ne_of_isWord hc (isWord_of_isBlank (Bool.not_eq_false _ ▸ hblank)) rfl

/-- A character whose capital form is an ASCII capital letter is an ASCII character. -/
theorem toNat_lt_of_toUpper {c : Char} (h : c.toUpper.isUpper = true) : c.toNat < 128 := by
  have hletter : c.toNat ≤ 122 := by
    by_cases hlower : 'a'.val ≤ c.val ∧ c.val ≤ 'z'.val
    · exact UInt32.le_iff_toNat_le.mp hlower.2
    · have hsame : c.toUpper = c := dif_neg hlower
      rw [hsame] at h
      have hrange : 'A'.val ≤ c.val ∧ c.val ≤ 'Z'.val := of_decide_eq_true h
      have hle : c.toNat ≤ 90 := UInt32.le_iff_toNat_le.mp hrange.2
      omega
  omega

/-- Every character that stands for a capital letter is part of a word. -/
theorem isWord_of_letterMatches {letter c : Char} (hletter : letter.isUpper = true)
    (h : letterMatches letter c = true) : isWord c = true := by
  have hcode : ∀ n, c.toNat = n → isWord (Char.ofNat n) = true → isWord c = true := by
    intro n hn hword
    rw [← hn, Char.ofNat_toNat] at hword
    exact hword
  simp only [letterMatches, Bool.or_eq_true, Bool.and_eq_true, beq_iff_eq] at h
  rcases h with ((hupper | ⟨-, hlong⟩) | ⟨-, hkelvin⟩) | ⟨-, hdotless | hdotted⟩
  · rw [← hupper] at hletter
    have hall : ∀ n < 128, (Char.ofNat n).toUpper.isUpper = true →
        isWord (Char.ofNat n) = true := by
      decide +kernel
    exact hcode _ rfl (hall c.toNat (toNat_lt_of_toUpper hletter) (by rwa [Char.ofNat_toNat]))
  · exact hcode _ hlong (by decide +kernel)
  · exact hcode _ hkelvin (by decide +kernel)
  · exact hcode _ hdotless (by decide +kernel)
  · exact hcode _ hdotted (by decide +kernel)

/-- No capital letter matches a character that is not part of a word. -/
theorem letterMatches_of_not_isWord {letter c : Char} (hletter : letter.isUpper = true)
    (hc : isWord c = false) : letterMatches letter c = false := by
  by_contra hmatch
  rw [Bool.not_eq_false] at hmatch
  rw [isWord_of_letterMatches hletter hmatch] at hc
  exact Bool.false_ne_true hc.symm

/-! ## Texts that lack or seal letters -/

theorem isBlank_of_letterMatches {letter c : Char} (hletter : letter.isUpper = true)
    (h : letterMatches letter c = true) : isBlank c = false := by
  by_contra hblank
  rw [Bool.not_eq_false] at hblank
  rw [letterMatches_of_not_isWord hletter (isWord_of_isBlank hblank)] at h
  exact Bool.false_ne_true h

/-- A text that ends two texts put together ends the second, or reaches into the first. -/
theorem suffix_append_cases {part front back : List α} (h : part <:+ front ++ back) :
    part <:+ back ∨ ∃ tail, part = tail ++ back ∧ tail <:+ front := by
  obtain ⟨dropped, hdropped⟩ := h
  rcases List.append_eq_append_iff.mp hdropped with ⟨tail, hfront, hpart⟩ | ⟨gap, _, hback⟩
  · exact Or.inr ⟨tail, hpart, dropped, hfront.symm⟩
  · exact Or.inl ⟨gap, hback.symm⟩

/-- At least one letter, all of them capital. -/
structure Capital (letters : List Char) : Prop where
  ne_nil : letters ≠ []
  upper : ∀ letter ∈ letters, letter.isUpper = true

theorem Keyword.capital (keyword : Keyword) : Capital keyword.letters := by
  cases keyword <;> exact ⟨by decide, List.all_eq_true.mp (by decide)⟩

/-- The letters occur nowhere in a text. -/
def Lacks (letters cs : List Char) : Prop :=
  ∀ part, part <:+ cs → afterLetters? letters part = none

/-- No occurrence of the letters starts in a text, whatever follows it. -/
def Seals (letters cs : List Char) : Prop :=
  ∀ part, part ≠ [] → part <:+ cs → ∀ rest, afterLetters? letters (part ++ rest) = none

/-- A text has no character that is part of a word. -/
def Wordless (cs : List Char) : Prop :=
  ∀ c ∈ cs, isWord c = false

namespace Capital

variable {letters : List Char}

theorem afterLetters?_nil (hcapital : Capital letters) : afterLetters? letters [] = none := by
  cases letters with
  | nil => exact absurd rfl hcapital.ne_nil
  | cons letter letters => rfl

theorem afterLetters?_cons_of_not_isWord (hcapital : Capital letters) {c : Char}
    (hc : isWord c = false) (rest : List Char) : afterLetters? letters (c :: rest) = none := by
  cases letters with
  | nil => exact absurd rfl hcapital.ne_nil
  | cons letter letters =>
      have hletter := hcapital.upper letter List.mem_cons_self
      simp [afterLetters?, letterMatches_of_not_isWord hletter hc]

/-- Letters that do not stand at the start of a text do not stand there if a character
follows that is not part of a word. -/
theorem afterLetters?_append_of_not_isWord (hupper : ∀ letter ∈ letters, letter.isUpper = true)
    {part : List Char} (hpart : afterLetters? letters part = none) {c : Char}
    (hc : isWord c = false) (rest : List Char) :
    afterLetters? letters (part ++ c :: rest) = none := by
  induction letters generalizing part with
  | nil => exact absurd hpart (by simp [afterLetters?])
  | cons letter letters ih =>
      have hletter := hupper letter List.mem_cons_self
      cases part with
      | nil => simp [afterLetters?, letterMatches_of_not_isWord hletter hc]
      | cons first part =>
          by_cases hmatch : letterMatches letter first = true
          · simp only [afterLetters?, hmatch, if_true, List.cons_append] at hpart ⊢
            exact ih (fun other hother => hupper other (List.mem_cons_of_mem _ hother)) hpart
          · simp [afterLetters?, hmatch]

/-- Text without any part of a word seals all letters. -/
theorem seals_of_wordless (hcapital : Capital letters) {cs : List Char} (hcs : Wordless cs) :
    Seals letters cs := by
  intro part hne hsuffix rest
  obtain ⟨c, part, rfl⟩ := List.exists_cons_of_ne_nil hne
  exact hcapital.afterLetters?_cons_of_not_isWord
    (hcs c (hsuffix.subset List.mem_cons_self)) (part ++ rest)

/-- A text that lacks letters and a separator after it seal them. -/
theorem seals_append (hcapital : Capital letters) {cs separator : List Char}
    (hcs : Lacks letters cs) (hne : separator ≠ []) (hseparator : Wordless separator) :
    Seals letters (cs ++ separator) := by
  intro part hpart hsuffix rest
  obtain ⟨c, separator, rfl⟩ := List.exists_cons_of_ne_nil hne
  rcases suffix_append_cases hsuffix with hinside | ⟨front, rfl, hfront⟩
  · exact hcapital.seals_of_wordless hseparator part hpart hinside rest
  · rw [List.append_assoc, List.cons_append]
    exact afterLetters?_append_of_not_isWord hcapital.upper (hcs front hfront)
      (hseparator c List.mem_cons_self) _

end Capital

variable {letters : List Char}

@[simp]
theorem seals_nil : Seals letters [] :=
  fun _ hne hsuffix => absurd (List.suffix_nil.mp hsuffix) hne

/-- Texts that seal letters can be put together. -/
theorem Seals.append {front back : List Char} (hfront : Seals letters front)
    (hback : Seals letters back) : Seals letters (front ++ back) := by
  intro part hne hsuffix rest
  rcases suffix_append_cases hsuffix with hinside | ⟨tail, rfl, htail⟩
  · exact hback part hne hinside rest
  · cases tail with
    | nil => exact hback back hne (List.suffix_refl back) rest
    | cons c tail =>
        rw [List.append_assoc]
        exact hfront (c :: tail) (List.cons_ne_nil c tail) htail (back ++ rest)

/-- A text that seals letters, before one that lacks them, lacks them. -/
theorem Seals.lacks_append {front back : List Char} (hfront : Seals letters front)
    (hback : Lacks letters back) : Lacks letters (front ++ back) := by
  intro part hsuffix
  rcases suffix_append_cases hsuffix with hinside | ⟨tail, rfl, htail⟩
  · exact hback part hinside
  · cases tail with
    | nil => exact hback back (List.suffix_refl back)
    | cons c tail => exact hfront (c :: tail) (List.cons_ne_nil c tail) htail back

/-- A text that seals letters lacks them. -/
theorem Seals.lacks (hcapital : Capital letters) {cs : List Char} (h : Seals letters cs) :
    Lacks letters cs := by
  have hnil : Lacks letters [] := by
    intro part hsuffix
    rw [List.suffix_nil.mp hsuffix]
    exact hcapital.afterLetters?_nil
  simpa using h.lacks_append hnil

/-- A word spells letters if its characters stand for them one by one. -/
def Spells (letters word : List Char) : Prop :=
  List.Forall₂ (fun letter c => letterMatches letter c = true) letters word

/-- Where characters stand for their own capitals only, a word spells its letters in capitals. -/
theorem spells_iff {word : List Char}
    (h : ∀ letter ∈ letters, ∀ c ∈ word, letterMatches letter c = (c.toUpper == letter)) :
    Spells letters word ↔ word.map Char.toUpper = letters := by
  induction letters generalizing word with
  | nil => simp [Spells]
  | cons letter letters ih =>
      cases word with
      | nil => simp [Spells]
      | cons c word =>
          have hlater := ih fun other hother d hd =>
            h other (List.mem_cons_of_mem letter hother) d (List.mem_cons_of_mem c hd)
          rw [Spells, List.forall₂_cons, ← Spells, hlater,
            h letter List.mem_cons_self c List.mem_cons_self, beq_iff_eq, List.map_cons,
            List.cons_eq_cons]

/-- The characters of a word that spells capital letters are parts of a word. -/
theorem Spells.all_isWord {word : List Char}
    (hupper : ∀ letter ∈ letters, letter.isUpper = true) (h : Spells letters word) :
    word.all isWord = true := by
  induction h with
  | nil => rfl
  | cons hmatch _ ih =>
      rw [List.forall_mem_cons] at hupper
      rw [List.all_cons, isWord_of_letterMatches hupper.1 hmatch]
      exact ih hupper.2

/-- What follows letters is what follows a word that spells them. -/
theorem afterLetters?_eq_some_iff {cs rest : List Char} :
    afterLetters? letters cs = some rest ↔ ∃ word, Spells letters word ∧ cs = word ++ rest := by
  induction letters generalizing cs with
  | nil =>
      constructor
      · intro h
        exact ⟨[], .nil, by simpa [afterLetters?] using h⟩
      · rintro ⟨_, hword, rfl⟩
        cases hword
        rfl
  | cons letter letters ih =>
      constructor
      · intro h
        cases cs with
        | nil => cases h
        | cons c cs =>
            by_cases hc : letterMatches letter c = true
            · rw [afterLetters?, if_pos hc] at h
              obtain ⟨word, hword, rfl⟩ := ih.mp h
              exact ⟨c :: word, .cons hc hword, rfl⟩
            · rw [afterLetters?, if_neg hc] at h
              cases h
      · rintro ⟨_, hword, rfl⟩
        cases hword with
        | cons hc hrest =>
            rw [List.cons_append, afterLetters?, if_pos hc]
            exact ih.mpr ⟨_, hrest, rfl⟩

theorem afterLetters?_append {cs tail : List Char} (h : afterLetters? letters cs = some tail)
    (rest : List Char) : afterLetters? letters (cs ++ rest) = some (tail ++ rest) := by
  obtain ⟨word, hword, rfl⟩ := afterLetters?_eq_some_iff.mp h
  exact afterLetters?_eq_some_iff.mpr ⟨word, hword, by rw [List.append_assoc]⟩

/-- Every part of a text that lacks letters lacks them. -/
theorem Lacks.of_infix {part cs : List Char} (hcs : Lacks letters cs) (hpart : part <:+: cs) :
    Lacks letters part := by
  obtain ⟨front, back, rfl⟩ := hpart
  rintro tail ⟨start, rfl⟩
  cases htail : afterLetters? letters tail with
  | none => rfl
  | some rest =>
      have hwhole := hcs (tail ++ back) ⟨front ++ start, by simp⟩
      rw [afterLetters?_append htail back] at hwhole
      cases hwhole

/-- A keyword is found at the start of its own letters. -/
@[simp]
theorem after?_self (keyword : Keyword) (rest : List Char) :
    after? keyword (keyword.letters ++ rest) = some rest := by
  cases keyword <;> rfl

/-- A keyword is spelled by its own letters. -/
theorem Keyword.spells_letters (keyword : Keyword) : Spells keyword.letters keyword.letters := by
  have hself : afterLetters? keyword.letters (keyword.letters ++ []) = some [] :=
    after?_self keyword []
  obtain ⟨word, hword, heq⟩ := afterLetters?_eq_some_iff.mp hself
  rw [List.append_nil, List.append_nil] at heq
  rwa [heq] at hword ⊢

/-- What was before a text and what comes last in it decide whether a word may start
after it. -/
def StartsWordAfter (cs : List Char) : Prop :=
  wordMayStart cs.getLast? = true

theorem startsWordAfter_nil : StartsWordAfter [] := rfl

theorem startsWordAfter_iff {cs : List Char} :
    StartsWordAfter cs ↔ ∀ c ∈ cs.getLast?, isWord c = false := by
  rw [StartsWordAfter]
  cases cs.getLast? <;> simp [wordMayStart]

theorem startsWord_eq_false_iff {cs : List Char} :
    startsWord cs = false ↔ ∀ c ∈ cs.head?, isWord c = false := by
  cases cs <;> simp [startsWord]

/-- A word may start after a separator. -/
theorem startsWordAfter_append {cs separator : List Char} (hne : separator ≠ [])
    (hseparator : Wordless separator) : StartsWordAfter (cs ++ separator) := by
  unfold StartsWordAfter
  rw [List.getLast?_append_of_ne_nil cs hne, List.getLast?_eq_some_getLast hne]
  simp [wordMayStart, hseparator _ (List.getLast_mem hne)]

/-! ## Searches -/

/-- What stands before the next position is the last character passed. -/
theorem getLast?_cons_or (c : Char) (front : List Char) (prev : Option Char) :
    (c :: front).getLast?.or prev = front.getLast?.or (some c) := by
  cases front with
  | nil => rfl
  | cons d front => simp [List.getLast?_cons]

section Search

variable {recognise : Option Char → List Char → Option α}

/-- A search passes over a text in which the recogniser does not succeed. -/
theorem findFirstAfter?_append {front rest : List Char}
    (h : ∀ part, part ≠ [] → part <:+ front → ∀ prev, recognise prev (part ++ rest) = none)
    (prev : Option Char) :
    findFirstAfter? recognise prev (front ++ rest) =
      (findFirstAfter? recognise (front.getLast?.or prev) rest).map
        fun found => (front ++ found.1, found.2) := by
  induction front generalizing prev with
  | nil => simp
  | cons c front ih =>
      have hhere := h (c :: front) (List.cons_ne_nil c front) (List.suffix_refl _) prev
      have hlater := ih (fun part hne hpart => h part hne (hpart.trans (List.suffix_cons c front)))
        (some c)
      rw [List.cons_append] at hhere
      rw [getLast?_cons_or, List.cons_append, findFirstAfter?, hhere, hlater]
      cases findFirstAfter? recognise (front.getLast?.or (some c)) rest <;> rfl

/-- A search finds nothing in a text in which the recogniser does not succeed. -/
theorem findFirstAfter?_eq_none {cs : List Char}
    (h : ∀ part, part <:+ cs → ∀ prev, recognise prev part = none) (prev : Option Char) :
    findFirstAfter? recognise prev cs = none := by
  induction cs generalizing prev with
  | nil => simp [findFirstAfter?, h [] (List.suffix_refl _)]
  | cons c cs ih =>
      rw [findFirstAfter?, h (c :: cs) (List.suffix_refl _),
        ih fun part hpart => h part (hpart.trans (List.suffix_cons c cs))]

/-- A recogniser finds nothing where the letters do not stand. -/
def LedBy (letters : List Char) (recognise : Option Char → List Char → Option α) : Prop :=
  ∀ prev cs, afterLetters? letters cs = none → recognise prev cs = none

/-- A search that needs letters passes over a text that seals them. -/
theorem LedBy.findFirstAfter?_append (hled : LedBy letters recognise) {front : List Char}
    (hfront : Seals letters front) (prev : Option Char) (rest : List Char) :
    findFirstAfter? recognise prev (front ++ rest) =
      (findFirstAfter? recognise (front.getLast?.or prev) rest).map
        fun found => (front ++ found.1, found.2) :=
  Script.findFirstAfter?_append
    (fun part hne hpart other => hled other _ (hfront part hne hpart rest)) prev

/-- A search that needs letters finds nothing in a text that lacks them. -/
theorem LedBy.findFirstAfter?_eq_none (hled : LedBy letters recognise) {cs : List Char}
    (hcs : Lacks letters cs) (prev : Option Char) : findFirstAfter? recognise prev cs = none :=
  Script.findFirstAfter?_eq_none (fun part hpart other => hled other part (hcs part hpart)) prev

end Search

/-- A search stops where the recogniser succeeds. -/
theorem findFirstAfter?_of_eq_some {recognise : Option Char → List Char → Option α}
    {prev : Option Char} {cs : List Char} {hit : α} (h : recognise prev cs = some hit) :
    findFirstAfter? recognise prev cs = some ([], hit) := by
  cases cs with
  | nil => simp [findFirstAfter?, h]
  | cons c cs => simp [findFirstAfter?, h]

/-- A search finds something exactly if there is a place where something is recognised. -/
theorem isSome_findFirstAfter?_iff {recognise : Option Char → List Char → Option α}
    {prev : Option Char} {cs : List Char} :
    (findFirstAfter? recognise prev cs).isSome = true ↔
      ∃ front part, cs = front ++ part ∧
        (recognise (front.getLast?.or prev) part).isSome = true := by
  constructor
  · intro h
    fun_induction findFirstAfter? recognise prev cs with
    | case1 prev => exact ⟨[], [], rfl, by simpa using h⟩
    | case2 prev c rest hit hhit => exact ⟨[], c :: rest, rfl, by simp [hhit]⟩
    | case3 prev c rest _ before hit hrest ih =>
        obtain ⟨front, part, rfl, hpart⟩ := ih (by simp [hrest])
        exact ⟨c :: front, part, rfl, by rwa [getLast?_cons_or]⟩
    | case4 => cases h
  · rintro ⟨front, part, rfl, hpart⟩
    induction front generalizing prev with
    | nil =>
        obtain ⟨hit, hhit⟩ := Option.isSome_iff_exists.mp hpart
        have hhere : recognise prev part = some hit := hhit
        rw [List.nil_append, findFirstAfter?_of_eq_some hhere]
        rfl
    | cons c front ih =>
        rw [getLast?_cons_or] at hpart
        obtain ⟨found, hfound⟩ := Option.isSome_iff_exists.mp (ih hpart)
        rw [List.cons_append, findFirstAfter?]
        cases hhere : recognise prev (c :: (front ++ part)) <;> simp [hfound]

/-- A search hits behind the text that it gives, and nowhere in it. -/
theorem exists_of_findFirstAfter? {recognise : Option Char → List Char → Option α}
    {prev : Option Char} {cs front : List Char} {hit : α}
    (h : findFirstAfter? recognise prev cs = some (front, hit)) :
    ∃ rest, cs = front ++ rest ∧ recognise (front.getLast?.or prev) rest = some hit ∧
      ∀ start part, front = start ++ part → part ≠ [] →
        recognise (start.getLast?.or prev) (part ++ rest) = none := by
  fun_induction findFirstAfter? recognise prev cs generalizing front with
  | case1 prev =>
      obtain ⟨found, hfound, heq⟩ := Option.map_eq_some_iff.mp h
      cases heq
      refine ⟨[], rfl, hfound, fun start part hcut hne => ?_⟩
      exact absurd (List.append_eq_nil_iff.mp hcut.symm).2 hne
  | case2 prev c rest found hfound =>
      cases h
      refine ⟨c :: rest, rfl, hfound, fun start part hcut hne => ?_⟩
      exact absurd (List.append_eq_nil_iff.mp hcut.symm).2 hne
  | case3 prev c cs hnone before found hrest ih =>
      cases h
      obtain ⟨rest, rfl, hhit, hearlier⟩ := ih hrest
      refine ⟨rest, rfl, by rw [getLast?_cons_or, hhit], fun start part hcut hne => ?_⟩
      cases start with
      | nil =>
          rw [List.nil_append] at hcut
          rw [← hcut]
          exact hnone
      | cons d start =>
          cases hcut
          rw [getLast?_cons_or]
          exact hearlier start part rfl hne
  | case4 => cases h

section Search

variable {recognise : List Char → Option α} {front cs : List Char}

/-- A search passes over a text that seals the letters and stops at a hit. -/
theorem search?_append (hled : ∀ cs, afterLetters? letters cs = none → recognise cs = none)
    (hfront : Seals letters front) {hit : α} (hhit : recognise cs = some hit) :
    search? recognise (front ++ cs) = some hit := by
  have hledBy : LedBy letters fun _ rest => recognise rest := fun _ cs h => hled cs h
  rw [search?, findFirst?, hledBy.findFirstAfter?_append hfront,
    findFirstAfter?_of_eq_some hhit]
  rfl

/-- A search finds nothing in a text that lacks the letters. -/
theorem search?_eq_none (hled : ∀ cs, afterLetters? letters cs = none → recognise cs = none)
    (hcs : Lacks letters cs) : search? recognise cs = none := by
  have hledBy : LedBy letters fun _ rest => recognise rest := fun _ cs h => hled cs h
  rw [search?, findFirst?, hledBy.findFirstAfter?_eq_none hcs]
  rfl

end Search

section Words

variable {β : Type} {keyword : Keyword} {next? : List Char → Option β} {front cs tail : List Char}

/-- The first place of a keyword decides a search for it, if what comes after it is
accepted. -/
theorem search?_after?_append (hfront : Seals keyword.letters front) {hit : β}
    (hhit : next? tail = some hit) :
    search? (fun cs => (after? keyword cs).bind next?) (front ++ (keyword.letters ++ tail)) =
      some hit := by
  refine search?_append (fun cs hcs => ?_) hfront ?_
  · have hnone : after? keyword cs = none := hcs
    rw [hnone]
    rfl
  · rw [after?_self]
    exact hhit

/-- The recogniser of a keyword as a word, with what has to come after it. -/
theorem ledBy_word (keyword : Keyword) (next? : List Char → Option β) :
    LedBy keyword.letters fun prev rest =>
      if wordMayStart prev then (after? keyword rest).bind next? else none := by
  intro prev cs h
  have hafter : after? keyword cs = none := h
  simp [hafter]

/-- The first word of a keyword decides a search for it, if what comes after it is
accepted. -/
theorem searchWord?_append (hfront : Seals keyword.letters front) (hstart : StartsWordAfter front)
    {hit : β} (hhit : next? tail = some hit) :
    searchWord? keyword next? (front ++ (keyword.letters ++ tail)) = some hit := by
  rw [searchWord?, findFirst?, (ledBy_word keyword next?).findFirstAfter?_append hfront]
  have hprev : wordMayStart (front.getLast?.or none) = true := by
    rw [Option.or_none]
    exact hstart
  rw [findFirstAfter?_of_eq_some (by simp only [hprev, if_true, after?_self]; exact hhit)]
  rfl

/-- A search for a keyword finds nothing if what comes after its only occurrence is not
accepted. -/
theorem searchWord?_append_eq_none (hfront : Seals keyword.letters front)
    (hnext : next? tail = none) (hlater : Lacks keyword.letters (keyword.letters.tail ++ tail)) :
    searchWord? keyword next? (front ++ (keyword.letters ++ tail)) = none := by
  obtain ⟨letter, letters, hletters⟩ := List.exists_cons_of_ne_nil keyword.capital.ne_nil
  have hself : after? keyword (letter :: (letters ++ tail)) = some tail := by
    rw [← List.cons_append, ← hletters]
    exact after?_self keyword tail
  rw [searchWord?, findFirst?, (ledBy_word keyword next?).findFirstAfter?_append hfront]
  rw [hletters, List.tail_cons] at hlater
  rw [hletters, List.cons_append, findFirstAfter?, hself, Option.bind_some, hnext, ite_self]
  rw [(ledBy_word keyword next?).findFirstAfter?_eq_none (hletters ▸ hlater)]
  rfl

/-- A search for a keyword finds nothing in a text that lacks its letters. -/
theorem searchWord?_eq_none (hcs : Lacks keyword.letters cs) :
    searchWord? keyword next? cs = none := by
  rw [searchWord?, findFirst?, (ledBy_word keyword next?).findFirstAfter?_eq_none hcs]
  rfl

/-- The recogniser of letters as a word of their own. -/
theorem ledBy_wholeWord (letters : List Char) :
    LedBy letters fun prev rest =>
      if wordMayStart prev then
        (afterLetters? letters rest).filter fun tail => !startsWord tail
      else
        none := by
  intro prev cs h
  simp [h]

/-- A text with a keyword between separators has the keyword as a word. -/
theorem hasWord_append (hfront : Seals keyword.letters front) (hstart : StartsWordAfter front)
    (htail : startsWord tail = false) :
    hasWord keyword (front ++ (keyword.letters ++ tail)) = true := by
  have hprev : wordMayStart (front.getLast?.or none) = true := by
    rw [Option.or_none]
    exact hstart
  have hself : afterLetters? keyword.letters (keyword.letters ++ tail) = some tail :=
    after?_self keyword tail
  have hhit : (if wordMayStart (front.getLast?.or none) then
      (afterLetters? keyword.letters (keyword.letters ++ tail)).filter fun tail =>
        !startsWord tail
      else none) = some tail := by
    rw [if_pos hprev, hself, Option.filter_some, if_pos (by simp [htail])]
  rw [hasWord, hasWordOf, findFirst?, (ledBy_wholeWord _).findFirstAfter?_append hfront,
    findFirstAfter?_of_eq_some hhit]
  rfl

/-- Letters are a word of a text exactly if they stand somewhere with no part of a word before
and after them. -/
theorem hasWordOf_iff {letters line : List Char} :
    hasWordOf letters line = true ↔
      ∃ front part tail, line = front ++ part ∧ StartsWordAfter front ∧
        afterLetters? letters part = some tail ∧ startsWord tail = false := by
  rw [hasWordOf, findFirst?, isSome_findFirstAfter?_iff]
  refine exists_congr fun front => exists_congr fun part => ?_
  rw [Option.or_none, StartsWordAfter]
  by_cases hstart : wordMayStart front.getLast? = true
  · rw [if_pos hstart, Option.isSome_iff_exists]
    simp [hstart, Option.filter_eq_some_iff]
  · simp [hstart]

theorem hasWord_iff {line : List Char} :
    hasWord keyword line = true ↔
      ∃ front part tail, line = front ++ part ∧ StartsWordAfter front ∧
        afterLetters? keyword.letters part = some tail ∧ startsWord tail = false :=
  hasWordOf_iff

/-- A text that lacks the letters of a keyword does not have it as a word. -/
theorem hasWord_eq_false (hcs : Lacks keyword.letters cs) : hasWord keyword cs = false := by
  rw [hasWord, hasWordOf, findFirst?, (ledBy_wholeWord _).findFirstAfter?_eq_none hcs]
  rfl

end Words

end QlikMigration.Script
