import Mathlib.Data.List.Infix
import QlikMigration.Json.Reader
import QlikMigration.Script.Expansion

/-!
# String literals of a program

A literal in single quotes denotes a text, given here by its code points, because
an escape may also denote one that is no character. Reading a literal has two
parts. Its body reaches to the next quote that no backslash stands before, and
it may not leave its line. The body is then decoded: a backslash and what follows
it are an escape, and a backslash before any other character stands for itself.

A text that is put between quotes as it is denotes itself exactly if it is
*verbatim*: it has no quote, it does not end the line, and each of its
backslashes has a character behind it that begins no escape. In every other case
the literal denotes another text, or is none.
-/

namespace QlikMigration.Spark

open QlikMigration.Script (escapeLetter? isOctal octalValue)

/-! ## Reading a literal -/

/-- Whether a character may not stand in the line of a literal: a line end, or the null
character, which no program has. -/
def endsLine (c : Char) : Bool :=
  c == '\n' || c == '\r' || c.toNat == 0

/-- The body of a literal, where the text begins behind the opening quote. -/
def literalBody? : List Char → Option (List Char)
  | [] => none
  | c :: rest =>
    if c = '\'' then some []
    else if c = '\\' then
      match rest with
      | [] => none
      | d :: later => if d.toNat == 0 then none else (literalBody? later).map ('\\' :: d :: ·)
    else if endsLine c then none
    else (literalBody? rest).map (c :: ·)

/-- The number that so many hexadecimal digits at the start of a text give. -/
def hexNumber? (count : Nat) (cs : List Char) : Option Nat :=
  if cs.length < count then none
  else ((cs.take count).mapM Json.hexValue?).map (·.foldl (fun n digit => 16 * n + digit) 0)

/-- Whether a backslash before a character begins an escape. -/
def beginsEscape (c : Char) : Bool :=
  endsLine c || isOctal c || (escapeLetter? c).isSome ||
    ['x', 'u', 'U', 'N', '\'', '"'].contains c

/-- The code point that an escape denotes, and how much of the text behind its first character
belongs to it. A line end denotes nothing. A character can be given by its name in braces. -/
def escaped? (named? : List Char → Option Nat) (c : Char) (rest : List Char) :
    Option (Option Nat × Nat) :=
  if endsLine c then some (none, 0)
  else if isOctal c then
    let digits := (rest.take 2).takeWhile isOctal
    some (octalValue (c :: digits), digits.length)
  else if c = 'x' then (hexNumber? 2 rest).map fun code => (some code, 2)
  else if c = 'u' then (hexNumber? 4 rest).map fun code => (some code, 4)
  else if c = 'U' then
    ((hexNumber? 8 rest).filter (· < 0x110000)).map fun code => (some code, 8)
  else if c = 'N' then
    let name := rest.tail.takeWhile (· != '}')
    if rest.head? = some '{' && rest.contains '}' then
      (named? name).map fun code => (some code, name.length + 2)
    else none
  else some (((escapeLetter? c).getD c).toNat, 0)

/-- Decodes a body whose first characters belong to an escape that has been read. -/
def decodeFrom (named? : List Char → Option Nat) : Nat → List Char → Option (List Nat)
  | _, [] => some []
  | skip + 1, _ :: rest => decodeFrom named? skip rest
  | 0, c :: rest =>
    if c = '\\' then
      match rest with
      | [] => none
      | d :: later =>
        if beginsEscape d then
          match escaped? named? d later with
          | none => none
          | some (code, used) => (decodeFrom named? used later).map (code.toList ++ ·)
        else (decodeFrom named? 0 later).map fun codes => c.toNat :: d.toNat :: codes
    else (decodeFrom named? 0 rest).map (c.toNat :: ·)

/-- The code points that a literal denotes, where the text begins with its opening quote. -/
def denoted? (named? : List Char → Option Nat) : List Char → Option (List Nat)
  | [] => none
  | c :: rest => if c = '\'' then (literalBody? rest).bind (decodeFrom named? 0) else none

/-! ## Verbatim texts -/

/-- A text that denotes itself when it is put between quotes. -/
structure Verbatim (cs : List Char) : Prop where
  unquoted : '\'' ∉ cs
  oneLine : ∀ c ∈ cs, endsLine c = false
  unescaped : ∀ c, ['\\', c] <:+: cs → beginsEscape c = false
  closed : ¬ ['\\'] <:+ cs

theorem verbatim_nil : Verbatim [] where
  unquoted := List.not_mem_nil
  oneLine := List.forall_mem_nil _
  unescaped _ h := absurd (List.infix_nil.mp h) (List.cons_ne_nil _ _)
  closed h := absurd (List.suffix_nil.mp h) (List.cons_ne_nil _ _)

theorem verbatim_of_not_mem_backslash {cs : List Char} (hslash : '\\' ∉ cs) (hquote : '\'' ∉ cs)
    (hline : ∀ c ∈ cs, endsLine c = false) : Verbatim cs where
  unquoted := hquote
  oneLine := hline
  unescaped _ h := absurd (h.subset List.mem_cons_self) hslash
  closed h := hslash (h.subset List.mem_cons_self)

theorem verbatim_cons_iff {c : Char} {cs : List Char} (hc : c ≠ '\\') :
    Verbatim (c :: cs) ↔ c ≠ '\'' ∧ endsLine c = false ∧ Verbatim cs := by
  have hlast : ['\\'] <:+ c :: cs ↔ ['\\'] <:+ cs := by
    rw [List.suffix_cons_iff]
    exact or_iff_right fun h => hc (List.cons.inj h).1.symm
  have hpart : ∀ d, ['\\', d] <:+: c :: cs ↔ ['\\', d] <:+: cs := by
    intro d
    rw [List.infix_cons_iff, List.cons_prefix_cons]
    exact or_iff_right fun h => hc h.1.symm
  constructor
  · intro h
    have hquote : c ≠ '\'' := fun heq => h.unquoted (heq ▸ List.mem_cons_self)
    exact ⟨hquote, h.oneLine c List.mem_cons_self,
      fun hmem => h.unquoted (List.mem_cons_of_mem c hmem),
      fun d hd => h.oneLine d (List.mem_cons_of_mem c hd),
      fun d hd => h.unescaped d ((hpart d).mpr hd), fun hd => h.closed (hlast.mpr hd)⟩
  · rintro ⟨hquote, hline, h⟩
    refine ⟨?_, ?_, fun d hd => h.unescaped d ((hpart d).mp hd), fun hd => h.closed (hlast.mp hd)⟩
    · rw [List.mem_cons, not_or]
      exact ⟨Ne.symm hquote, h.unquoted⟩
    · rw [List.forall_mem_cons]
      exact ⟨hline, h.oneLine⟩

/-- The marks of a literal begin escapes. -/
theorem ne_of_not_beginsEscape {c : Char} (h : beginsEscape c = false) :
    c ≠ '\\' ∧ c ≠ '\'' ∧ endsLine c = false := by
  have hne : ∀ d, beginsEscape d = true → c ≠ d := by
    rintro d hd rfl
    rw [h] at hd
    cases hd
  refine ⟨hne _ (by decide), hne _ (by decide), ?_⟩
  rw [beginsEscape, Bool.or_assoc, Bool.or_assoc, Bool.or_eq_false_iff] at h
  exact h.1

theorem verbatim_backslash_iff {c : Char} {cs : List Char} :
    Verbatim ('\\' :: c :: cs) ↔ beginsEscape c = false ∧ Verbatim cs := by
  constructor
  · intro h
    have hc := h.unescaped c ⟨[], cs, rfl⟩
    obtain ⟨hslash, -, -⟩ := ne_of_not_beginsEscape hc
    have hrest : Verbatim (c :: cs) :=
      ⟨fun hmem => h.unquoted (List.mem_cons_of_mem _ hmem),
        fun d hd => h.oneLine d (List.mem_cons_of_mem _ hd),
        fun d hd => h.unescaped d (hd.trans (List.suffix_cons _ _).isInfix),
        fun hd => h.closed (hd.trans (List.suffix_cons _ _))⟩
    exact ⟨hc, ((verbatim_cons_iff hslash).mp hrest).2.2⟩
  · rintro ⟨hc, h⟩
    obtain ⟨hslash, hquote, hline⟩ := ne_of_not_beginsEscape hc
    have hrest : Verbatim (c :: cs) := (verbatim_cons_iff hslash).mpr ⟨hquote, hline, h⟩
    refine ⟨?_, ?_, ?_, ?_⟩
    · rw [List.mem_cons, not_or]
      exact ⟨by decide, hrest.unquoted⟩
    · rw [List.forall_mem_cons]
      exact ⟨by decide, hrest.oneLine⟩
    · intro d hd
      rw [List.infix_cons_iff] at hd
      rcases hd with hhere | hlater
      · obtain rfl : d = c := (List.cons_prefix_cons.mp (List.cons_prefix_cons.mp hhere).2).1
        exact hc
      · exact hrest.unescaped d hlater
    · rw [List.suffix_cons_iff]
      rintro (hsingle | hlater)
      · cases hsingle
      · exact hrest.closed hlater

/-- A verbatim text is built up from plain characters and from backslashes before characters that
begin no escape. -/
theorem Verbatim.induction {motive : (cs : List Char) → Verbatim cs → Prop}
    (nil : motive [] verbatim_nil)
    (plain : ∀ c cs (hslash : c ≠ '\\') (hquote : c ≠ '\'') (hline : endsLine c = false)
      (h : Verbatim cs), motive cs h →
        motive (c :: cs) ((verbatim_cons_iff hslash).mpr ⟨hquote, hline, h⟩))
    (backslash : ∀ c cs (hc : beginsEscape c = false) (h : Verbatim cs), motive cs h →
      motive ('\\' :: c :: cs) (verbatim_backslash_iff.mpr ⟨hc, h⟩))
    {cs : List Char} (h : Verbatim cs) : motive cs h := by
  match cs with
  | [] => exact nil
  | c :: cs =>
      by_cases hc : c = '\\'
      · subst hc
        match cs with
        | [] => exact absurd (List.suffix_refl _) h.closed
        | d :: cs =>
            obtain ⟨hd, hcs⟩ := verbatim_backslash_iff.mp h
            exact backslash d cs hd hcs (Verbatim.induction nil plain backslash hcs)
      · obtain ⟨hquote, hline, hcs⟩ := (verbatim_cons_iff hc).mp h
        exact plain c cs hc hquote hline hcs (Verbatim.induction nil plain backslash hcs)

/-! ## What a literal denotes -/

section Body

variable {c d : Char} {cs rest body : List Char}

theorem literalBody?_quote : literalBody? ('\'' :: rest) = some [] := by
  rw [literalBody?.eq_def]
  exact if_pos rfl

theorem literalBody?_backslash : literalBody? ('\\' :: d :: rest) =
    if d.toNat == 0 then none else (literalBody? rest).map ('\\' :: d :: ·) := by
  rw [literalBody?, if_neg (by decide), if_pos rfl]

theorem literalBody?_cons (hquote : c ≠ '\'') (hslash : c ≠ '\\') : literalBody? (c :: rest) =
    if endsLine c then none else (literalBody? rest).map (c :: ·) := by
  rw [literalBody?.eq_def]
  exact (if_neg hquote).trans (if_neg hslash)

/-- A text without a quote has no end of a literal in it. -/
theorem literalBody?_eq_none (h : '\'' ∉ cs) : literalBody? cs = none := by
  fun_induction literalBody? cs with
  | case2 => exact absurd List.mem_cons_self h
  | case5 d later _ _ ih =>
      rw [ih fun hmem => h (List.mem_cons_of_mem _ (List.mem_cons_of_mem _ hmem))]
      rfl
  | case7 c rest _ _ _ ih =>
      rw [ih fun hmem => h (List.mem_cons_of_mem _ hmem)]
      rfl
  | case1 | case3 | case4 | case6 => rfl

/-- A body ends at the last quote or before it. -/
theorem literalBody?_isPrefix (hrest : '\'' ∉ rest)
    (h : literalBody? (cs ++ '\'' :: rest) = some body) : body <+: cs := by
  fun_induction literalBody? cs generalizing body with
  | case1 =>
      rw [List.nil_append, literalBody?_quote] at h
      cases h
      exact List.prefix_refl []
  | case2 tail =>
      rw [List.cons_append, literalBody?_quote] at h
      cases h
      exact List.nil_prefix
  | case3 =>
      -- The backslash stands before the last quote.
      rw [List.singleton_append, literalBody?_backslash, literalBody?_eq_none hrest] at h
      cases h
  | case4 d later hnull =>
      rw [List.cons_append, List.cons_append, literalBody?_backslash, if_pos hnull] at h
      cases h
  | case5 d later hnull _ ih =>
      rw [List.cons_append, List.cons_append, literalBody?_backslash, if_neg hnull,
        Option.map_eq_some_iff] at h
      obtain ⟨tail, htail, rfl⟩ := h
      exact (List.prefix_cons_inj _).mpr ((List.prefix_cons_inj _).mpr (ih htail))
  | case6 c tail hquote hslash hline =>
      rw [List.cons_append, literalBody?_cons hquote hslash, if_pos hline] at h
      cases h
  | case7 c tail hquote hslash hline ih =>
      rw [List.cons_append, literalBody?_cons hquote hslash, if_neg hline,
        Option.map_eq_some_iff] at h
      obtain ⟨later, hlater, rfl⟩ := h
      exact (List.prefix_cons_inj c).mpr (ih hlater)

theorem Verbatim.literalBody?_eq (h : Verbatim cs) :
    literalBody? (cs ++ '\'' :: rest) = some cs := by
  induction h using Verbatim.induction with
  | nil => exact literalBody?_quote
  | plain c cs hslash hquote hline _ ih =>
      rw [List.cons_append, literalBody?_cons hquote hslash, hline, ih]
      rfl
  | backslash d cs hd _ ih =>
      have hnull : (d.toNat == 0) = false :=
        (Bool.or_eq_false_iff.mp (ne_of_not_beginsEscape hd).2.2).2
      rw [List.cons_append, List.cons_append, literalBody?_backslash, hnull, ih]
      rfl

end Body

section Decoding

variable {named? : List Char → Option Nat} {skip : Nat} {codes : List Nat}
  {c d : Char} {cs rest : List Char}

theorem decodeFrom_cons (hc : c ≠ '\\') :
    decodeFrom named? 0 (c :: cs) = (decodeFrom named? 0 cs).map (c.toNat :: ·) := by
  rw [decodeFrom.eq_def]
  exact if_neg hc

theorem decodeFrom_backslash (hd : beginsEscape d = false) :
    decodeFrom named? 0 ('\\' :: d :: cs) =
      (decodeFrom named? 0 cs).map fun codes => '\\'.toNat :: d.toNat :: codes := by
  rw [decodeFrom.eq_def]
  exact (if_pos rfl).trans (if_neg (ne_true_of_eq_false hd))

/-- A body does not denote more code points than it has characters. -/
theorem length_le_of_decodeFrom (h : decodeFrom named? skip cs = some codes) :
    codes.length ≤ cs.length := by
  fun_induction decodeFrom named? skip cs generalizing codes with
  | case1 =>
      cases h
      exact Nat.zero_le _
  | case2 skip c tail ih => exact (ih h).trans (Nat.le_succ _)
  | case3 => cases h
  | case4 => cases h
  | case5 d later hd code used hcode ih =>
      rw [Option.map_eq_some_iff] at h
      obtain ⟨behind, hbehind, rfl⟩ := h
      have hone := code.length_toList_le
      have hlater := ih hbehind
      rw [List.length_append, List.length_cons, List.length_cons]
      omega
  | case6 d later hd ih =>
      rw [Option.map_eq_some_iff] at h
      obtain ⟨behind, hbehind, rfl⟩ := h
      exact Nat.add_le_add_right (ih hbehind) 2
  | case7 c tail hc ih =>
      rw [Option.map_eq_some_iff] at h
      obtain ⟨behind, hbehind, rfl⟩ := h
      exact Nat.succ_le_succ (ih hbehind)

/-- An escape denotes fewer code points than it has characters. -/
theorem length_lt_of_beginsEscape (hd : beginsEscape d = true)
    (h : decodeFrom named? 0 ('\\' :: d :: cs) = some codes) : codes.length < cs.length + 2 := by
  rw [decodeFrom.eq_def] at h
  simp only [if_pos, hd] at h
  cases hcode : escaped? named? d cs with
  | none =>
      rw [hcode] at h
      cases h
  | some read =>
      rw [hcode] at h
      obtain ⟨behind, hbehind, rfl⟩ := Option.map_eq_some_iff.mp h
      have hone := read.1.length_toList_le
      have hlater := length_le_of_decodeFrom hbehind
      rw [List.length_append]
      omega

theorem Verbatim.decodeFrom_eq (h : Verbatim cs) :
    decodeFrom named? 0 cs = some (cs.map Char.toNat) := by
  induction h using Verbatim.induction with
  | nil => rfl
  | plain c cs hslash _ _ _ ih =>
      rw [decodeFrom_cons hslash, ih]
      rfl
  | backslash d cs hd _ ih =>
      rw [decodeFrom_backslash hd, ih]
      rfl

/-- A body that denotes its own characters has no escape in it. -/
theorem verbatim_of_decodeFrom (hbody : literalBody? (cs ++ '\'' :: rest) = some cs)
    (h : decodeFrom named? 0 cs = some (cs.map Char.toNat)) : Verbatim cs := by
  fun_induction literalBody? cs with
  | case1 => exact verbatim_nil
  | case2 tail =>
      rw [List.cons_append, literalBody?_quote] at hbody
      cases hbody
  | case3 =>
      rw [decodeFrom.eq_def] at h
      cases h
  | case4 d later hnull =>
      rw [List.cons_append, List.cons_append, literalBody?_backslash, if_pos hnull] at hbody
      cases hbody
  | case5 d later hnull _ ih =>
      rw [List.cons_append, List.cons_append, literalBody?_backslash, if_neg hnull,
        Option.map_eq_some_iff] at hbody
      obtain ⟨tail, htail, heq⟩ := hbody
      obtain rfl : tail = later := by simpa using heq
      cases hd : beginsEscape d with
      | true =>
          have hlt := length_lt_of_beginsEscape hd h
          rw [List.length_map] at hlt
          exact absurd hlt (Nat.lt_irrefl _)
      | false =>
          rw [decodeFrom_backslash hd, Option.map_eq_some_iff] at h
          obtain ⟨codes, hcodes, heq⟩ := h
          rw [(List.cons.inj (List.cons.inj heq).2).2] at hcodes
          exact verbatim_backslash_iff.mpr ⟨hd, ih htail hcodes⟩
  | case6 c tail hquote hslash hline =>
      rw [List.cons_append, literalBody?_cons hquote hslash, if_pos hline] at hbody
      cases hbody
  | case7 c tail hquote hslash hline ih =>
      rw [List.cons_append, literalBody?_cons hquote hslash, if_neg hline,
        Option.map_eq_some_iff] at hbody
      obtain ⟨later, hlater, heq⟩ := hbody
      rw [(List.cons.inj heq).2] at hlater
      rw [decodeFrom_cons hslash, Option.map_eq_some_iff] at h
      obtain ⟨codes, hcodes, heq⟩ := h
      rw [(List.cons.inj heq).2] at hcodes
      exact (verbatim_cons_iff hslash).mpr
        ⟨hquote, eq_false_of_ne_true hline, ih hlater hcodes⟩

/-- A text in quotes denotes itself exactly if it is verbatim. -/
theorem denoted?_eq_iff (hrest : '\'' ∉ rest) :
    denoted? named? ('\'' :: (cs ++ '\'' :: rest)) = some (cs.map Char.toNat) ↔ Verbatim cs := by
  rw [denoted?, if_pos rfl]
  constructor
  · intro h
    rw [Option.bind_eq_some_iff] at h
    obtain ⟨body, hbody, hcodes⟩ := h
    -- A shorter body would not have room for all the code points.
    have hlength := length_le_of_decodeFrom hcodes
    rw [List.length_map] at hlength
    obtain rfl := (literalBody?_isPrefix hrest hbody).eq_of_length_le hlength
    exact verbatim_of_decodeFrom hbody hcodes
  · intro h
    rw [h.literalBody?_eq]
    exact h.decodeFrom_eq

end Decoding

end QlikMigration.Spark
