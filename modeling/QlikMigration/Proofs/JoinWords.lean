import QlikMigration.Proofs.ClauseReading

/-!
# The words that announce a join

A line announces a join by the word `JOIN`, alone or after the word for a kind of
join, in any spelling. The table of the join stands in parentheses before `LOAD`.
If `LOAD` follows the words at once, the join has no table and the line cannot be
read. Nothing else can go wrong, as long as no letter is spelled by the dotted
capital I: this character stands for an I, but it is none in capital letters.
-/

namespace QlikMigration.Script

open QlikMigration.Text

/-! ## Spelling -/

/-- The capital I with a dot. -/
def dottedI : Char := '\u0130'

/-- A character stands for one capital letter at most. -/
theorem letterMatches_unique {letter other c : Char} (hletter : letter.isUpper = true)
    (hother : other.isUpper = true) (h : letterMatches letter c = true)
    (h' : letterMatches other c = true) : letter = other := by
  by_cases hascii : c.toNat < 128
  · rw [letterMatches_of_ascii hascii, beq_iff_eq] at h h'
    exact h.symm.trans h'
  · -- Beyond ASCII a character stands for a letter only by its code.
    have hcode : ∀ capital : Char, capital.isUpper = true → letterMatches capital c = true →
        (capital = 'S' ∧ c.toNat = 0x17F) ∨ (capital = 'K' ∧ c.toNat = 0x212A) ∨
          (capital = 'I' ∧ (c.toNat = 0x131 ∨ c.toNat = 0x130)) := by
      intro capital hcapital hmatch
      have hplain : c.toUpper ≠ capital := by
        rintro rfl
        exact hascii (toNat_lt_of_toUpper hcapital)
      simpa [letterMatches, hplain, or_assoc] using hmatch
    rcases hcode letter hletter h with ⟨rfl, hc⟩ | ⟨rfl, hc⟩ | ⟨rfl, hc⟩ <;>
      rcases hcode other hother h' with ⟨rfl, hc'⟩ | ⟨rfl, hc'⟩ | ⟨rfl, hc'⟩ <;>
        first | rfl | omega

/-- A word that spells a keyword does not begin like a keyword with another initial. -/
theorem Spells.after?_eq_none {keyword other : Keyword} {word : List Char}
    (h : Spells keyword.letters word) (hne : keyword.letters.head? ≠ other.letters.head?)
    (rest : List Char) : after? other (word ++ rest) = none := by
  have hupper := keyword.capital.upper
  have hupperOther := other.capital.upper
  rw [after?]
  cases hother : other.letters with
  | nil => exact absurd hother other.capital.ne_nil
  | cons letter letters =>
      cases hkeyword : keyword.letters with
      | nil => exact absurd hkeyword keyword.capital.ne_nil
      | cons initial later =>
          rw [hkeyword] at h hupper hne
          rw [hother] at hupperOther hne
          obtain ⟨c, word, hc, -, rfl⟩ := List.forall₂_cons_left_iff.mp h
          rw [List.cons_append, afterLetters?, if_neg]
          intro hmatch
          exact hne (congrArg some (letterMatches_unique (hupper _ List.mem_cons_self)
            (hupperOther _ List.mem_cons_self) hc hmatch))

/-- In capital letters a word is the letters that it spells. -/
theorem Spells.joinCapitals_eq {letters word : List Char} (h : Spells letters word)
    (hupper : ∀ letter ∈ letters, letter.isUpper = true) (hs : 'S' ∉ letters) (hk : 'K' ∉ letters)
    (hdotted : dottedI ∉ word) : joinCapitals word = letters := by
  induction h with
  | nil => rfl
  | @cons letter c letters word hc _ ih =>
      rw [List.mem_cons, not_or] at hs hk hdotted
      have hrest := ih (fun other hother => hupper other (List.mem_cons_of_mem letter hother))
        hs.2 hk.2 hdotted.2
      have hcode : c.toNat ≠ 0x130 := by
        intro hcode
        apply hdotted.1
        rw [← Char.ofNat_toNat c, hcode]
        rfl
      have hhead : (if c.toNat == 0x131 then 'I' else c.toUpper) = letter := by
        simp only [letterMatches, Bool.or_eq_true, Bool.and_eq_true, beq_iff_eq] at hc
        rcases hc with ((hc | ⟨hc, -⟩) | ⟨hc, -⟩) | ⟨hc, hcode' | hcode'⟩
        · have hascii := toNat_lt_of_toUpper (hc ▸ hupper letter List.mem_cons_self)
          rw [if_neg (by simp; omega), hc]
        · exact absurd hc.symm hs.1
        · exact absurd hc.symm hk.1
        · rw [if_pos (by simpa using hcode'), hc]
        · exact absurd hcode' hcode
      rw [joinCapitals, List.map_cons, hhead]
      exact congrArg _ hrest

/-! ## The words of a join -/

/-- The words that announce a join of a kind: the word for the kind and `JOIN`, or
`JOIN` alone for an inner join. -/
inductive JoinWords : JoinKind → List Char → Prop
  | alone {join : List Char} (hjoin : Spells Keyword.join.letters join) : JoinWords .inner join
  | named (kind : JoinKind) {first gap join : List Char}
      (hfirst : Spells kind.keyword.letters first) (hgap : Blanks gap) (hne : gap ≠ [])
      (hjoin : Spells Keyword.join.letters join) : JoinWords kind (first ++ (gap ++ join))

theorem afterJoinWords?_eq (cs : List Char) :
    afterJoinWords? cs =
      (((afterPair? JoinKind.left.keyword .join cs).or
        (afterPair? JoinKind.right.keyword .join cs)).or
        ((afterPair? JoinKind.inner.keyword .join cs).or
          (afterPair? JoinKind.outer.keyword .join cs))).or (after? .join cs) :=
  rfl

/-- The words of a join are passed where they stand. -/
theorem JoinWords.afterJoinWords?_append {kind : JoinKind} {words : List Char}
    (h : JoinWords kind words) (rest : List Char) :
    afterJoinWords? (words ++ rest) = some rest := by
  rw [afterJoinWords?_eq]
  cases h with
  | alone hjoin =>
      have hnone : ∀ kind : JoinKind, afterPair? kind.keyword .join (words ++ rest) = none :=
        fun kind => afterPair?_eq_none (hjoin.after?_eq_none (by cases kind <;> decide) rest)
      rw [hnone, hnone, hnone, hnone]
      exact afterLetters?_eq_some_iff.mpr ⟨words, hjoin, rfl⟩
  | @named _ first gap join hfirst hgap hne hjoin =>
      have hself : afterPair? kind.keyword .join ((first ++ (gap ++ join)) ++ rest) = some rest :=
        afterPair?_eq_some_iff.mpr ⟨first, gap, join, hfirst, hgap, hne, hjoin, by simp⟩
      have hother : ∀ other : JoinKind, other ≠ kind →
          afterPair? other.keyword .join ((first ++ (gap ++ join)) ++ rest) = none := by
        intro other hne
        rw [List.append_assoc]
        refine afterPair?_eq_none (hfirst.after?_eq_none ?_ _)
        cases kind <;> cases other <;> first | decide | exact absurd rfl hne
      cases kind with
      | left => rw [hself]; rfl
      | right => rw [hother .left (by decide), hself]; rfl
      | inner => rw [hother .left (by decide), hother .right (by decide), hself]; rfl
      | outer =>
          rw [hother .left (by decide), hother .right (by decide), hother .inner (by decide), hself]
          rfl

/-- What is passed as the words of a join is words of a join. -/
theorem exists_joinWords {cs rest : List Char} (h : afterJoinWords? cs = some rest) :
    ∃ kind words, JoinWords kind words ∧ cs = words ++ rest := by
  have hnamed : ∀ kind : JoinKind, afterPair? kind.keyword .join cs = some rest →
      ∃ kind words, JoinWords kind words ∧ cs = words ++ rest := by
    intro kind hpair
    obtain ⟨first, gap, join, hfirst, hgap, hne, hjoin, rfl⟩ := afterPair?_eq_some_iff.mp hpair
    exact ⟨kind, _, .named kind hfirst hgap hne hjoin, by simp⟩
  rw [afterJoinWords?_eq] at h
  simp only [Option.or_eq_some_iff] at h
  rcases h with ((h | ⟨-, h⟩) | ⟨-, h | ⟨-, h⟩⟩) | ⟨-, h⟩
  · exact hnamed .left h
  · exact hnamed .right h
  · exact hnamed .inner h
  · exact hnamed .outer h
  · obtain ⟨join, hjoin, rfl⟩ := afterLetters?_eq_some_iff.mp h
    exact ⟨.inner, join, .alone hjoin, rfl⟩

theorem contains_eq_false {pattern cs : List Char}
    (h : ∀ part, part <:+ cs → pattern.isPrefixOf part = false) : contains pattern cs = false := by
  induction cs with
  | nil =>
      have hnil := h [] (List.suffix_refl _)
      cases pattern with
      | nil => simp [List.isPrefixOf] at hnil
      | cons c pattern => rfl
  | cons c cs ih =>
      rw [contains, h (c :: cs) (List.suffix_refl _),
        ih fun part hpart => h part (hpart.trans (List.suffix_cons c cs))]
      rfl

/-- The words of a join contain the word for its kind and for no other. -/
theorem contains_joinWords (kind other : JoinKind) {between : List Char}
    (hbetween : Separator.gap.Writes between) :
    contains other.keyword.letters (kind.keyword.letters ++ (between ++ Keyword.join.letters)) =
      decide (other = kind) := by
  by_cases heq : other = kind
  · subst heq
    cases other <;> simp [JoinKind.keyword, Keyword.letters, contains, List.isPrefixOf]
  · have hkind : Lacks other.keyword.letters kind.keyword.letters := by
      apply lacks_of_mentions_eq_false kind.keyword.ascii_letters
      cases kind <;> cases other <;> first | decide | exact absurd rfl heq
    have hjoin : Lacks other.keyword.letters Keyword.join.letters := by
      apply lacks_of_mentions_eq_false Keyword.join.ascii_letters
      cases other <;> decide
    have hself : ∀ letter ∈ other.keyword.letters, letterMatches letter letter = true := by
      cases other <;> exact List.all_eq_true.mp (by decide)
    have hseals : Seals other.keyword.letters (kind.keyword.letters ++ between) :=
      other.keyword.capital.seals_append hkind hbetween.ne_nil hbetween.wordless
    rw [decide_eq_false heq, ← List.append_assoc]
    exact contains_eq_false fun part hpart =>
      isPrefixOf_eq_false_of_afterLetters? hself (hseals.lacks_append hjoin part hpart)

/-- The kind of a join is read from its words. -/
theorem joinKind_append (kind : JoinKind) {between : List Char}
    (hbetween : Separator.gap.Writes between) :
    joinKind (kind.keyword.letters ++ (between ++ Keyword.join.letters)) = .ok kind := by
  have hcontains := fun other => contains_joinWords kind other hbetween
  have hleft := hcontains .left
  have hright := hcontains .right
  have houter := hcontains .outer
  have hinner := hcontains .inner
  simp only [JoinKind.keyword] at hleft hright houter hinner
  rw [joinKind]
  cases kind <;> simp_all [JoinKind.keyword]

theorem joinCapitals_of_blanks {gap : List Char} (hgap : Blanks gap) : joinCapitals gap = gap := by
  have hblank : ∀ c, isBlank c = true → (if c.toNat == 0x131 then 'I' else c.toUpper) = c := by
    intro c hc
    have hall : ∀ n ∈ blankCodes,
        (if n == 0x131 then 'I' else (Char.ofNat n).toUpper) = Char.ofNat n := by decide +kernel
    have hcode := hall c.toNat (toNat_mem_blankCodes hc)
    rwa [Char.ofNat_toNat] at hcode
  calc
    joinCapitals gap = gap.map id := List.map_congr_left fun c hc => hblank c (hgap c hc)
    _ = gap := List.map_id gap

/-- The kind of a join is read from its words, however they are spelled. -/
theorem JoinWords.joinKind_joinCapitals {kind : JoinKind} {words : List Char}
    (h : JoinWords kind words) (hdotted : dottedI ∉ words) :
    joinKind (joinCapitals words) = .ok kind := by
  cases h with
  | alone hjoin =>
      rw [hjoin.joinCapitals_eq Keyword.join.capital.upper (by decide) (by decide) hdotted]
      decide
  | @named _ first gap join hfirst hgap hne hjoin =>
      simp only [List.mem_append, not_or] at hdotted
      obtain ⟨hdottedFirst, -, hdottedJoin⟩ := hdotted
      have hs : 'S' ∉ kind.keyword.letters := by cases kind <;> decide
      have hk : 'K' ∉ kind.keyword.letters := by cases kind <;> decide
      have hcapitals : joinCapitals (first ++ (gap ++ join)) =
          kind.keyword.letters ++ (gap ++ Keyword.join.letters) := by
        rw [joinCapitals, List.map_append, List.map_append]
        exact congrArg₂ (· ++ ·)
          (hfirst.joinCapitals_eq kind.keyword.capital.upper hs hk hdottedFirst)
          (congrArg₂ (· ++ ·) (joinCapitals_of_blanks hgap)
            (hjoin.joinCapitals_eq Keyword.join.capital.upper (by decide) (by decide) hdottedJoin))
      rw [hcapitals]
      exact joinKind_append kind (Separator.writes_gap_iff.mpr ⟨hgap, hne⟩)

/-! ## The table of a join -/

theorem wordRun_append {word rest : List Char} (hword : word.all isWord = true)
    (hrest : startsWord rest = false) :
    wordRun (word ++ rest) = word ∧ afterWordRun (word ++ rest) = rest := by
  have hall := List.all_eq_true.mp hword
  rw [wordRun, afterWordRun, List.takeWhile_append_of_pos hall, List.dropWhile_append_of_pos hall]
  cases rest with
  | nil => simp
  | cons c rest =>
      have hc : isWord c = false := hrest
      simp [hc]

/-- A name in parentheses before `LOAD` is the table of a join. -/
theorem joinTable?_append (table : Identifier) {lead trail : List Char} (hlead : Blanks lead)
    (htrail : Blanks trail) (hne : trail ≠ []) (rest : List Char) :
    joinTable? (lead ++ '(' :: (table.chars ++ ')' :: (trail ++ (Keyword.load.letters ++ rest)))) =
      some (some table.chars) := by
  have hopening :
      Flush ('(' :: (table.chars ++ ')' :: (trail ++ (Keyword.load.letters ++ rest)))) := by
    intro c hc
    obtain rfl : '(' = c := by simpa using hc
    decide
  have hload : Flush (Keyword.load.letters ++ rest) :=
    Keyword.load.solid.flush.append Keyword.load.solid.ne_nil rest
  have hfollows : loadFollows (trail ++ (Keyword.load.letters ++ rest)) = true := by
    rw [loadFollows, htrail.afterBlanks?_append hne hload, Option.bind_some, after?_self]
    rfl
  have hclosing : startsWord (')' :: (trail ++ (Keyword.load.letters ++ rest))) = false := rfl
  obtain ⟨hrun, hafter⟩ := wordRun_append table.word hclosing
  rw [joinTable?, hlead.skipBlanks_append hopening]
  simp [List.isPrefixOf?, hrun, hafter, hfollows, table.solid.ne_nil]

/-- White space and a word that spells `LOAD` follow. -/
theorem loadFollows_iff {cs : List Char} :
    loadFollows cs = true ↔
      ∃ gap load rest, Blanks gap ∧ gap ≠ [] ∧ Spells Keyword.load.letters load ∧
        cs = gap ++ (load ++ rest) := by
  rw [loadFollows, Option.isSome_iff_exists]
  constructor
  · rintro ⟨rest, h⟩
    obtain ⟨tail, hblanks, hafter⟩ := Option.bind_eq_some_iff.mp h
    obtain ⟨gap, hgap, hne, -, rfl⟩ := afterBlanks?_eq_some_iff.mp hblanks
    obtain ⟨load, hload, rfl⟩ := afterLetters?_eq_some_iff.mp hafter
    exact ⟨gap, load, rest, hgap, hne, hload, rfl⟩
  · rintro ⟨gap, load, rest, hgap, hne, hload, rfl⟩
    refine ⟨rest, ?_⟩
    rw [hgap.afterBlanks?_append hne (hload.flush_append Keyword.load.capital rest)]
    exact afterLetters?_eq_some_iff.mpr ⟨load, hload, rfl⟩

/-- A join is without a table exactly if `LOAD` follows its words at once. -/
theorem joinTable?_eq_some_none_iff {cs : List Char} :
    joinTable? cs = some none ↔ loadFollows cs = true := by
  constructor
  · intro h
    unfold joinTable? at h
    split at h
    · by_contra hload
      rw [if_neg hload] at h
      cases h
    · split at h
      · cases h
      · split at h <;> cases h
  · intro h
    obtain ⟨gap, load, rest, hgap, -, hload, rfl⟩ := loadFollows_iff.mp h
    have hflush := hload.flush_append Keyword.load.capital rest
    have hopening : ['('].isPrefixOf? (load ++ rest) = none := by
      obtain ⟨c, load, hc, -, rfl⟩ := List.forall₂_cons_left_iff.mp hload
      have hword := isWord_of_letterMatches (by decide) hc
      have hne : ¬ '(' = c := by
        rintro rfl
        exact absurd hword (by decide)
      simp [List.isPrefixOf?, hne]
    rw [joinTable?, hgap.skipBlanks_append hflush, hopening]
    exact if_pos h

/-! ## Reading a join -/

/-- What is read from a line that begins with the words of a join. -/
theorem JoinWords.readJoin_append {kind : JoinKind} {words : List Char} (h : JoinWords kind words)
    (hdotted : dottedI ∉ words) (rest : List Char) :
    readJoin (words ++ rest) = match joinTable? rest with
      | none => .ok none
      | some none => .error .joinWithoutTable
      | some (some table) => .ok (some ⟨kind, String.ofList table, none⟩) := by
  have hwords : (words ++ rest).take ((words ++ rest).length - rest.length) = words := by simp
  rw [readJoin, h.afterJoinWords?_append]
  cases htable : joinTable? rest with
  | none => simp [htable]
  | some table =>
      simp only [htable, hwords, h.joinKind_joinCapitals hdotted]
      cases table <;> rfl

/-- A line begins with the words of a join and `LOAD`, with no table between them. -/
def BareJoin (line : List Char) : Prop :=
  ∃ kind words gap load rest, JoinWords kind words ∧ Blanks gap ∧ gap ≠ [] ∧
    Spells Keyword.load.letters load ∧ line = words ++ (gap ++ (load ++ rest))

/-- The join of a line cannot be read exactly if it has no table. -/
theorem readJoin_eq_error_iff {line : List Char} (hdotted : dottedI ∉ line) (error : ReadError) :
    readJoin line = .error error ↔ error = .joinWithoutTable ∧ BareJoin line := by
  constructor
  · intro h
    cases hwords : afterJoinWords? line with
    | none =>
        rw [readJoin, hwords] at h
        cases h
    | some rest =>
        obtain ⟨kind, words, hjoin, rfl⟩ := exists_joinWords hwords
        rw [hjoin.readJoin_append fun hmem => hdotted (List.mem_append_left rest hmem)] at h
        split at h
        · cases h
        · next hbare =>
          cases h
          obtain ⟨gap, load, tail, hgap, hne, hload, rfl⟩ :=
            loadFollows_iff.mp (joinTable?_eq_some_none_iff.mp hbare)
          exact ⟨rfl, kind, words, gap, load, tail, hjoin, hgap, hne, hload, rfl⟩
        · cases h
  · rintro ⟨rfl, kind, words, gap, load, rest, hjoin, hgap, hne, hload, rfl⟩
    have hbare : joinTable? (gap ++ (load ++ rest)) = some none :=
      joinTable?_eq_some_none_iff.mpr (loadFollows_iff.mpr ⟨gap, load, rest, hgap, hne, hload, rfl⟩)
    rw [hjoin.readJoin_append fun hmem => hdotted (List.mem_append_left _ hmem), hbare]

end QlikMigration.Script
