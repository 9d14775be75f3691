import QlikMigration.Proofs.NormalLines

/-!
# The fields of a plain load

A plain load lists names between `LOAD` and `FROM`. Its field list ends at the
first white space behind which the letters of `FROM`, `RESIDENT`, `INLINE` or
`WHERE` stand, whether or not a longer word goes on from there. The first name
stands behind the white space after `LOAD`, which belongs to no field list, so
its letters do not matter; any later name that begins with such letters ends the
list, and it is lost with all names behind it.

The word `DISTINCT` behind `LOAD` is passed over if a field list is left then. As
the only name it is one, unless the path begins with such letters as well, or is
empty: then `FROM` is left, and is taken for the name.
-/

namespace QlikMigration.Script

open QlikMigration.Text

/-! ## Plain loads -/

/-- Whether a character may stand in an ASCII identifier. -/
def isNameLetter (c : Char) : Bool :=
  c.isAlphanum || c == '_'

/-- Whether a text is an ASCII identifier. -/
def isIdentifier (name : List Char) : Bool :=
  (name.head?.any fun c => c.isAlpha || c == '_') && name.all isNameLetter

/-- Whether a character may stand in a plain path. -/
def isPathLetter (c : Char) : Bool :=
  isNameLetter c || c == '.' || c == '/'

/-- The words that end a field list by their letters alone. -/
def listEnds : List Keyword :=
  [.fromSource, .resident, .inlineRows, .whereRows]

/-- Whether a text begins with the letters of a word that ends a field list, in any case. -/
def opensClause (cs : List Char) : Bool :=
  listEnds.any fun keyword => keyword.letters.isPrefixOf (cs.map Char.toUpper)

/-- The source behind the names of a plain load. -/
def plainSource (path : List Char) : List Char :=
  Keyword.fromSource.letters ++ ' ' :: (path ++ [';'])

/-- A load of names from a path. -/
def plainLoad (names : List (List Char)) (path : List Char) : List Char :=
  Keyword.load.letters ++ ' ' :: ([',', ' '].intercalate names ++ ' ' :: plainSource path)

/-- Names and a path of which a plain load can be made: no comment begins in it. -/
structure Loadable (names : List (List Char)) (path : List Char) : Prop where
  nonempty : names ≠ []
  identifiers : ∀ name ∈ names, isIdentifier name = true
  unremarked : ∀ name ∈ names, name.map Char.toUpper ≠ ['R', 'E', 'M']
  letters : ∀ c ∈ path, isPathLetter c = true
  slashes : ¬ ['/', '/'] <:+: path
  remark : ¬ Remarked path

/-- The names up to the first behind another that begins like a word that ends the list. -/
def keptNames : List (List Char) → List (List Char)
  | [] => []
  | first :: others => first :: others.takeWhile fun name => !opensClause name

instance (names : List (List Char)) (path : List Char) : Decidable (Loadable names path) :=
  decidable_of_iff
    (names ≠ [] ∧ names.all isIdentifier = true ∧
      (names.all fun name => name.map Char.toUpper != ['R', 'E', 'M']) = true ∧
      path.all isPathLetter = true ∧ ¬ ['/', '/'] <:+: path ∧ ¬ hasWord .remark path = true) <| by
    rw [hasWord_remark_iff, List.all_eq_true, List.all_eq_true, List.all_eq_true]
    constructor
    · rintro ⟨hne, hidentifiers, hunremarked, hletters, hslashes, hremark⟩
      exact ⟨hne, hidentifiers, fun name hname => bne_iff_ne.mp (hunremarked name hname), hletters,
        hslashes, hremark⟩
    · rintro ⟨hne, hidentifiers, hunremarked, hletters, hslashes, hremark⟩
      exact ⟨hne, hidentifiers, fun name hname => bne_iff_ne.mpr (hunremarked name hname), hletters,
        hslashes, hremark⟩

/-- Whether the only name is taken for the word `DISTINCT`. That word is passed over only if a
field list is left behind it, and here `FROM` is one, since the path goes on like a clause. -/
def isPassedOver (names : List (List Char)) (path : List Char) : Bool :=
  names.map (·.map Char.toUpper) == [Keyword.distinct.letters] &&
    (path.isEmpty || opensClause path)

/-! ## Characters of names and paths -/

section Characters

variable {name path : List Char}

theorem ascii_of_isNameLetter {c : Char} (h : isNameLetter c = true) : c.toNat < 128 := by
  rw [isNameLetter, Bool.or_eq_true, beq_iff_eq] at h
  rcases h with halphanum | rfl
  · exact Spark.toNat_lt_of_isAlphanum halphanum
  · decide

theorem isWord_of_isNameLetter {c : Char} (h : isNameLetter c = true) : isWord c = true := by
  rw [isWord, if_pos (ascii_of_isNameLetter h)]
  exact h

theorem Keyword.isWord_letters (keyword : Keyword) : ∀ c ∈ keyword.letters, isWord c = true :=
  List.all_eq_true.mp (keyword.spells_letters.all_isWord keyword.capital.upper)

theorem Keyword.isBlank_letters (keyword : Keyword) : ∀ c ∈ keyword.letters, isBlank c = false :=
  fun c hc => isBlank_of_isWord (keyword.isWord_letters c hc)

/-- What a name is made of. -/
theorem letters_of_isIdentifier (h : isIdentifier name = true) :
    name ≠ [] ∧ ∀ c ∈ name, c.toNat < 128 ∧ isWord c = true ∧ isBlank c = false := by
  refine ⟨fun hnil => ?_, fun c hc => ?_⟩
  · rw [hnil] at h
    cases h
  · have hletter := List.all_eq_true.mp (Bool.and_eq_true_iff.mp h).2 c hc
    have hword := isWord_of_isNameLetter hletter
    exact ⟨ascii_of_isNameLetter hletter, hword, isBlank_of_isWord hword⟩

theorem of_isPathLetter {c : Char} (h : isPathLetter c = true) :
    c.toNat < 128 ∧ isBlank c = false ∧ c ≠ ';' := by
  rw [isPathLetter, Bool.or_eq_true, Bool.or_eq_true, beq_iff_eq, beq_iff_eq] at h
  rcases h with (hletter | rfl) | rfl
  · have hword := isWord_of_isNameLetter hletter
    exact ⟨ascii_of_isNameLetter hletter, isBlank_of_isWord hword, ne_of_isWord hword (by decide)⟩
  · decide
  · decide

end Characters

/-! ## Two keywords that stand nowhere -/

/-- A recogniser that succeeds nowhere in a text. -/
def Nowhere (next? : List Char → Option (List Char)) (cs : List Char) : Prop :=
  ∀ part, part <:+ cs → next? part = none

theorem EndsAtMark.nowhere_append {mark : Char} {next? : List Char → Option (List Char)}
    (hnext : EndsAtMark mark next?) {cs rest : List Char} (hcs : Nowhere next? cs)
    (hrest : Nowhere next? rest) : Nowhere next? (cs ++ mark :: rest) := by
  intro part hpart
  rcases suffix_append_cases hpart with hinside | ⟨tail, rfl, htail⟩
  · rcases List.suffix_cons_iff.mp hinside with rfl | hlater
    · have hmark := hnext [] rest
      rw [hcs [] (List.nil_suffix)] at hmark
      exact hmark
    · exact hrest part hlater
  · rw [hnext, hcs tail htail]
    rfl

theorem afterBlanks?_space {rest : List Char} (h : Flush rest) :
    afterBlanks? (' ' :: rest) = some rest :=
  congrArg some h.dropWhile_isBlank

section Pairs

variable {first second : Keyword} {cs rest : List Char}

theorem nowhere_of_not_blank (h : ∀ c ∈ cs, isBlank c = false) :
    Nowhere (afterPair? first second) cs := by
  intro part hpart
  by_contra hsome
  obtain ⟨tail, htail⟩ := Option.ne_none_iff_exists'.mp hsome
  obtain ⟨front, gap, back, -, hgap, hne, -, rfl⟩ := afterPair?_eq_some_iff.mp htail
  obtain ⟨c, gap, rfl⟩ := List.exists_cons_of_ne_nil hne
  have hblank := hgap c List.mem_cons_self
  rw [h c (hpart.subset (by simp))] at hblank
  cases hblank

/-- Two keywords reach over a space only if the first ends before it and the second begins
behind it. -/
theorem afterPair?_append_space (hcs : ∀ c ∈ cs, isBlank c = false) (hrest : Flush rest) :
    afterPair? first second (cs ++ ' ' :: rest) =
      if after? first cs = some [] then after? second rest else none := by
  rw [afterPair?, afterSpaced?, endsAtMark_after? first (by decide)]
  cases hfirst : after? first cs with
  | none => rfl
  | some tail =>
      cases tail with
      | nil =>
          rw [Option.map_some, Option.bind_some, List.nil_append, afterBlanks?_space hrest,
            Option.bind_some, if_pos rfl]
      | cons c tail =>
          obtain ⟨word, -, rfl⟩ := afterLetters?_eq_some_iff.mp hfirst
          have hc : isBlank c = false := hcs c (by simp)
          rw [Option.map_some, Option.bind_some, List.cons_append, afterBlanks?, hc,
            if_neg Bool.false_ne_true, Option.bind_none, if_neg (by simp)]

theorem nowhere_append_space (hcs : ∀ c ∈ cs, isBlank c = false) (hrest : Flush rest)
    (hapart : (∀ tail, tail <:+ cs → after? first tail ≠ some []) ∨ after? second rest = none)
    (hlater : Nowhere (afterPair? first second) rest) :
    Nowhere (afterPair? first second) (cs ++ ' ' :: rest) := by
  have hhere : ∀ tail, tail <:+ cs → afterPair? first second (tail ++ ' ' :: rest) = none := by
    intro tail htail
    rw [afterPair?_append_space (fun c hc => hcs c (htail.subset hc)) hrest]
    rcases hapart with hfirst | hsecond
    · rw [if_neg (hfirst tail htail)]
    · rw [hsecond, ite_self]
  intro part hpart
  rcases suffix_append_cases hpart with hinside | ⟨tail, rfl, htail⟩
  · rcases List.suffix_cons_iff.mp hinside with rfl | hbehind
    · exact hhere [] List.nil_suffix
    · exact hlater part hbehind
  · exact hhere tail htail

end Pairs

theorem intercalate_names_cons (first next : List Char) (others : List (List Char)) :
    [',', ' '].intercalate (first :: next :: others) =
      first ++ ',' :: ' ' :: [',', ' '].intercalate (next :: others) := by
  rw [List.intercalate_cons_cons, List.append_assoc]
  rfl

/-! ## The line as a whole -/

section Line

variable {first : List Char} {others : List (List Char)} {path : List Char}

theorem Loadable.tail {next : List Char} (h : Loadable (first :: next :: others) path) :
    Loadable (next :: others) path where
  nonempty := List.cons_ne_nil next others
  identifiers name hname := h.identifiers name (List.mem_cons_of_mem first hname)
  unremarked name hname := h.unremarked name (List.mem_cons_of_mem first hname)
  letters := h.letters
  slashes := h.slashes
  remark := h.remark

theorem Loadable.first_ne_nil (h : Loadable (first :: others) path) : first ≠ [] :=
  (letters_of_isIdentifier (h.identifiers first List.mem_cons_self)).1

theorem Loadable.first_letters (h : Loadable (first :: others) path) :
    ∀ c ∈ first, c.toNat < 128 ∧ isWord c = true ∧ isBlank c = false :=
  (letters_of_isIdentifier (h.identifiers first List.mem_cons_self)).2

theorem Loadable.flush_intercalate (h : Loadable (first :: others) path) (rest : List Char) :
    Flush ([',', ' '].intercalate (first :: others) ++ rest) := by
  have hletters := h.first_letters
  obtain ⟨c, first, rfl⟩ := List.exists_cons_of_ne_nil h.first_ne_nil
  intro d hd
  have hc : d = c := by
    cases others <;> simpa using hd.symm
  rw [hc]
  exact (hletters c List.mem_cons_self).2.2

theorem Loadable.path_unblank (h : Loadable (first :: others) path) :
    ∀ c ∈ path ++ [';'], isBlank c = false := by
  intro c hc
  rcases List.mem_append.mp hc with hpath | hend
  · exact (of_isPathLetter (h.letters c hpath)).2.1
  · rw [List.mem_singleton.mp hend]
    decide

theorem Loadable.flush_path (h : Loadable (first :: others) path) : Flush (path ++ [';']) :=
  fun c hc => h.path_unblank c (List.mem_of_mem_head? hc)

theorem flush_plainSource (path : List Char) : Flush (plainSource path) :=
  Keyword.fromSource.solid.flush.append Keyword.fromSource.solid.ne_nil _

section Pairs

variable {one two : Keyword}

/-- A long keyword does not end in a word of four letters. -/
theorem after?_ne_nil_of_length (hlong : 4 < one.letters.length) {cs : List Char}
    (hcs : cs.length ≤ 4) : ∀ tail, tail <:+ cs → after? one tail ≠ some [] := by
  intro tail htail hafter
  obtain ⟨word, hword, rfl⟩ := afterLetters?_eq_some_iff.mp hafter
  have hlength : one.letters.length = word.length := List.Forall₂.length_eq hword
  have hshort := htail.length_le
  rw [List.append_nil] at hshort
  omega

/-- A plain load has no two keywords of which the first has more than four letters and the second
cannot stand for `FROM`. -/
theorem Loadable.nowhere_pair (hlong : 4 < one.letters.length)
    (hfrom : ∀ rest, after? two (Keyword.fromSource.letters ++ rest) = none)
    (h : Loadable (first :: others) path) :
    Nowhere (afterPair? one two) (plainLoad (first :: others) path) := by
  have hsource : Nowhere (afterPair? one two) (plainSource path) :=
    nowhere_append_space Keyword.fromSource.isBlank_letters h.flush_path
      (Or.inl (after?_ne_nil_of_length hlong (by decide))) (nowhere_of_not_blank h.path_unblank)
  -- Two keywords would stand on the two sides of a space: behind a comma or `FROM` the first one
  -- has no room, and behind the last name the second one would be `FROM`.
  have hbody : Nowhere (afterPair? one two)
      ([',', ' '].intercalate (first :: others) ++ ' ' :: plainSource path) := by
    induction others generalizing first with
    | nil =>
        rw [List.intercalate_singleton]
        exact nowhere_append_space (fun c hc => (h.first_letters c hc).2.2) (flush_plainSource path)
          (Or.inr (hfrom _)) hsource
    | cons next others ih =>
        have hcomma : EndsAtMark ',' (afterPair? one two) :=
          endsAtMark_afterPair? one two (by decide) (by decide)
        rw [intercalate_names_cons, List.append_assoc]
        refine hcomma.nowhere_append
          (nowhere_of_not_blank fun c hc => (h.first_letters c hc).2.2) ?_
        exact @nowhere_append_space one two [] _ (by simp) (h.tail.flush_intercalate _)
          (Or.inl (after?_ne_nil_of_length hlong (by decide))) (ih h.tail)
  exact nowhere_append_space Keyword.load.isBlank_letters (h.flush_intercalate _)
    (Or.inl (after?_ne_nil_of_length hlong (by decide))) hbody

end Pairs

/-- A word of letters only is the word `REM` if it has one. -/
theorem eq_of_remarked {name : List Char} (hname : ∀ c ∈ name, isWord c = true)
    (h : Remarked name) : name.map Char.toUpper = ['R', 'E', 'M'] := by
  obtain ⟨front, word, rest, hstanding, hword⟩ := h
  have hcut := hstanding.cut
  have hfront : front = [] := by
    by_contra hne
    have hlast := hstanding.before _ (List.getLast?_eq_some_getLast hne)
    rw [hname _ (by rw [hcut]; exact List.mem_append_left _ (List.getLast_mem hne))] at hlast
    cases hlast
  have hrest : rest = [] := by
    by_contra hne
    obtain ⟨c, rest, rfl⟩ := List.exists_cons_of_ne_nil hne
    have hc : isWord c = false := hstanding.after
    rw [hname c (by simp [hcut])] at hc
    cases hc
  rw [hcut, hfront, hrest, List.nil_append, List.append_nil, hword]

theorem not_remarked_of_hasWord {cs : List Char} (h : hasWord .remark cs = false) :
    ¬ Remarked cs := by
  rw [← hasWord_remark_iff, h]
  exact Bool.false_ne_true

theorem Loadable.not_remarked_first (h : Loadable (first :: others) path) : ¬ Remarked first :=
  fun hremark => h.unremarked first List.mem_cons_self
    (eq_of_remarked (fun c hc => (h.first_letters c hc).2.1) hremark)

theorem Loadable.not_remarked (h : Loadable (first :: others) path) :
    ¬ Remarked (plainLoad (first :: others) path) := by
  have hsource : ¬ Remarked (plainSource path) := by
    intro hremark
    rcases hremark.of_append_cons (by decide) with hfrom | hpath
    · exact not_remarked_of_hasWord (by decide) hfrom
    · rcases hpath.of_append_cons (by decide) with hpath | hend
      · exact h.remark hpath
      · exact not_remarked_of_hasWord (by decide) hend
  have hbody :
      ¬ Remarked ([',', ' '].intercalate (first :: others) ++ ' ' :: plainSource path) := by
    induction others generalizing first with
    | nil =>
        rw [List.intercalate_singleton]
        intro hremark
        rcases hremark.of_append_cons (by decide) with hname | hlater
        · exact h.not_remarked_first hname
        · exact hsource hlater
    | cons next others ih =>
        rw [intercalate_names_cons, List.append_assoc]
        intro hremark
        rcases hremark.of_append_cons (by decide) with hname | hlater
        · exact h.not_remarked_first hname
        · rcases Remarked.of_append_cons (by decide)
            (show Remarked ([] ++ ' ' :: _) from hlater) with hnil | hnext
          · exact not_remarked_of_hasWord (by decide) hnil
          · exact ih h.tail hnext
  intro hremark
  rcases hremark.of_append_cons (by decide) with hload | hbehind
  · exact not_remarked_of_hasWord (by decide) hload
  · exact hbody hbehind

/-- Before its path, a plain load has only words, commas and spaces. -/
theorem Loadable.exists_plainLoad_eq (h : Loadable (first :: others) path) :
    ∃ front, plainLoad (first :: others) path = front ++ (path ++ [';']) ∧
      front ≠ [] ∧ Flush front ∧ ∀ c ∈ front, isWord c = true ∨ c = ',' ∨ c = ' ' := by
  refine ⟨Keyword.load.letters ++ ' ' :: ([',', ' '].intercalate (first :: others) ++
    ' ' :: (Keyword.fromSource.letters ++ [' '])), by simp [plainLoad, plainSource], by simp,
    Keyword.load.solid.flush.append Keyword.load.solid.ne_nil _, fun c hc => ?_⟩
  simp only [List.mem_append, List.mem_cons, List.not_mem_nil, or_false] at hc
  rcases hc with hload | rfl | hnames | rfl | hfrom | rfl
  · exact Or.inl (Keyword.load.isWord_letters c hload)
  · exact Or.inr (Or.inr rfl)
  · rcases mem_intercalate hnames with hseparator | ⟨name, hname, hmem⟩
    · exact Or.inr (by simpa using hseparator)
    · exact Or.inl ((letters_of_isIdentifier (h.identifiers name hname)).2 c hmem).2.1
  · exact Or.inr (Or.inr rfl)
  · exact Or.inl (Keyword.fromSource.isWord_letters c hfrom)
  · exact Or.inr (Or.inr rfl)

/-- A plain load is one statement line as it stands. -/
theorem Loadable.normalLine (h : Loadable (first :: others) path) :
    NormalLine (plainLoad (first :: others) path) := by
  obtain ⟨front, hline, hnonempty, hflush, hfront⟩ := h.exists_plainLoad_eq
  have hne : ∀ {mark}, isWord mark = false → mark ≠ ',' → mark ≠ ' ' → mark ∉ front := by
    intro mark hword hcomma hspace hmem
    rcases hfront mark hmem with hletter | rfl | rfl
    · rw [hword] at hletter
      cases hletter
    · exact hcomma rfl
    · exact hspace rfl
  have hpath : '\n' ∉ path := fun hmem =>
    absurd (of_isPathLetter (h.letters '\n' hmem)).2.1 (by decide)
  refine ⟨?_, ?_, h.not_remarked⟩
  · rw [hline, ← List.append_assoc]
    refine solid_semicolon.append_left (hflush.append hnonempty path) ?_
    rw [List.mem_append, not_or]
    exact ⟨hne (by decide) (by decide) (by decide), hpath⟩
  · rw [hline]
    intro hslashes
    have hbehind := infix_of_infix_append (List.cons_ne_nil _ _) (fun c hc hmem => by
      obtain rfl : c = '/' := by simpa using hmem
      exact hne (by decide) (by decide) (by decide) hc) hslashes
    rcases infix_or_infix_of_not_mem (by decide) hbehind with hpath | hend
    · exact h.slashes hpath
    · exact absurd hend (by decide)

theorem Loadable.statementLines_eq (h : Loadable (first :: others) path) :
    statementLines (plainLoad (first :: others) path) = [plainLoad (first :: others) path] := by
  have hnormal : NormalForm [plainLoad (first :: others) path] :=
    ⟨List.forall_mem_singleton.mpr h.normalLine, List.forall_mem_nil _⟩
  rw [← hnormal.statementLines_eq_self, scriptOf, List.intercalate_singleton]

end Line

/-! ## Where the field list ends -/

theorem afterLetters?_eq_some_nil_iff {letters cs : List Char} (hascii : ∀ c ∈ cs, c.toNat < 128) :
    afterLetters? letters cs = some [] ↔ cs.map Char.toUpper = letters := by
  rw [afterLetters?_eq_some_iff, ← spells_iff_of_ascii hascii]
  simp

/-- Where no grouping and no ordering stands, a field list ends before the letters of the other
clauses and before a semicolon. -/
theorem startsClause_append_cons {cs rest : List Char} {mark : Char}
    (hascii : ∀ c ∈ cs, c.toNat < 128) (hmark : isWord mark = false)
    (hgroup : afterPair? .group .byFields (cs ++ mark :: rest) = none)
    (horder : afterPair? .order .byFields (cs ++ mark :: rest) = none) :
    startsClause (cs ++ mark :: rest) =
      (opensClause cs || [';'].isPrefixOf (cs ++ mark :: rest)) := by
  have hsome : ∀ keyword : Keyword, (after? keyword (cs ++ mark :: rest)).isSome =
      keyword.letters.isPrefixOf (cs.map Char.toUpper) := by
    intro keyword
    rw [endsAtMark_after? keyword hmark, Option.isSome_map]
    exact isSome_afterLetters? hascii
  simp [startsClause, opensClause, listEnds, hsome, hgroup, horder, Bool.or_assoc]

/-- Whether a field list ends here: white space, and a clause behind it. -/
def endsFieldList (cs : List Char) : Bool :=
  (afterBlanks? cs).any startsClause

theorem spacedText?_space {body : List Char} (h : Flush body) :
    spacedText? startsClause (' ' :: body) = upTo? anyChar endsFieldList body := by
  have hgap : (' ' :: body).takeWhile isBlank = [' '] :=
    Blanks.takeWhile_append (Blanks.singleton (by decide)) h
  have hbody : (' ' :: body).dropWhile isBlank = body :=
    Blanks.dropWhile_append (Blanks.singleton (by decide)) h
  have hends : (fun rest => (afterBlanks? rest).any startsClause) = endsFieldList := rfl
  rw [spacedText?, hgap, hbody, hends]
  cases upTo? anyChar endsFieldList body <;> rfl

theorem spacedText?_cons {c : Char} (hc : isBlank c = false) (cs : List Char) :
    spacedText? startsClause (c :: cs) = none := by
  rw [spacedText?, List.takeWhile_cons_of_neg (by simp [hc])]
  rfl

theorem upTo?_endsFieldList_append {text : List Char} (h : ∀ c ∈ text, isBlank c = false)
    (rest : List Char) :
    upTo? anyChar endsFieldList (text ++ rest) =
      (upTo? anyChar endsFieldList rest).map (text ++ ·) := by
  refine upTo?_append_map (fun _ _ => rfl) fun part hne hpart => ?_
  obtain ⟨c, part, rfl⟩ := List.exists_cons_of_ne_nil hne
  rw [List.cons_append, endsFieldList, afterBlanks?, h c (hpart.subset List.mem_cons_self)]
  rfl

theorem upTo?_endsFieldList_space {rest : List Char} (h : Flush rest) :
    upTo? anyChar endsFieldList (' ' :: rest) =
      if startsClause rest then some []
      else (upTo? anyChar endsFieldList rest).map (' ' :: ·) := by
  have hhere : endsFieldList (' ' :: rest) = startsClause rest := by
    rw [endsFieldList, afterBlanks?_space h, Option.any_some]
  rw [upTo?, hhere]
  rfl

/-- The text of the kept names. Behind the last of them, the comma before a lost one is kept. -/
def keptText (first : List Char) : List (List Char) → List Char
  | [] => first
  | next :: others =>
    if opensClause next then first ++ [','] else first ++ ',' :: ' ' :: keptText next others

section FieldList

variable {first : List Char} {others : List (List Char)} {path : List Char}

theorem Loadable.nowhere_grouping (h : Loadable (first :: others) path) :
    Nowhere (afterPair? .group .byFields) (plainLoad (first :: others) path) :=
  h.nowhere_pair (by decide) fun _ => rfl

theorem Loadable.nowhere_ordering (h : Loadable (first :: others) path) :
    Nowhere (afterPair? .order .byFields) (plainLoad (first :: others) path) :=
  h.nowhere_pair (by decide) fun _ => rfl

/-- The names of a plain load and what follows them, cut behind the first. -/
theorem names_eq_append_cons (first : List Char) (others : List (List Char)) (path : List Char) :
    ∃ mark rest, [',', ' '].intercalate (first :: others) ++ ' ' :: plainSource path =
        first ++ mark :: rest ∧ isWord mark = false ∧
      (others = [] ∧ mark :: rest = ' ' :: plainSource path ∨ others ≠ [] ∧ mark = ',') := by
  cases others with
  | nil =>
      rw [List.intercalate_singleton]
      exact ⟨' ', plainSource path, rfl, by decide, Or.inl ⟨rfl, rfl⟩⟩
  | cons next others =>
      rw [intercalate_names_cons, List.append_assoc]
      exact ⟨',', _, rfl, by decide, Or.inr ⟨List.cons_ne_nil next others, rfl⟩⟩

/-- A clause starts at the names of a plain load exactly if the first of them opens it. -/
theorem Loadable.startsClause_names (h : Loadable (first :: others) path) :
    startsClause ([',', ' '].intercalate (first :: others) ++ ' ' :: plainSource path) =
      opensClause first := by
  have hletters := h.first_letters
  have hsuffix : [',', ' '].intercalate (first :: others) ++ ' ' :: plainSource path <:+
      plainLoad (first :: others) path :=
    (List.suffix_cons ' ' _).trans (List.suffix_append Keyword.load.letters _)
  have hgroup := h.nowhere_grouping _ hsuffix
  have horder := h.nowhere_ordering _ hsuffix
  obtain ⟨mark, rest, hcut, hmark, -⟩ := names_eq_append_cons first others path
  rw [hcut] at hgroup horder ⊢
  rw [startsClause_append_cons (fun c hc => (hletters c hc).1) hmark hgroup horder]
  obtain ⟨c, first, rfl⟩ := List.exists_cons_of_ne_nil h.first_ne_nil
  have hc : ';' ≠ c :=
    (ne_of_isWord (hletters c List.mem_cons_self).2.1 (by decide)).symm
  simp [List.isPrefixOf, hc]

/-- A clause starts at the path of a plain load exactly if the path opens it or is empty. -/
theorem Loadable.startsClause_path (h : Loadable (first :: others) path) :
    startsClause (path ++ [';']) = (path.isEmpty || opensClause path) := by
  have hsuffix : path ++ [';'] <:+ plainLoad (first :: others) path :=
    ⟨_, h.exists_plainLoad_eq.choose_spec.1.symm⟩
  rw [startsClause_append_cons (fun c hc => (of_isPathLetter (h.letters c hc)).1) (by decide)
    (h.nowhere_grouping _ hsuffix) (h.nowhere_ordering _ hsuffix)]
  cases path with
  | nil => rfl
  | cons c path =>
      have hc : ';' ≠ c := (of_isPathLetter (h.letters c List.mem_cons_self)).2.2.symm
      simp [List.isPrefixOf, hc]

/-- Behind the space after `LOAD`, the field list goes on to the first name that opens a clause. -/
theorem Loadable.upTo?_names (h : Loadable (first :: others) path) :
    upTo? anyChar endsFieldList
        ([',', ' '].intercalate (first :: others) ++ ' ' :: plainSource path) =
      some (keptText first others) := by
  induction others generalizing first with
  | nil =>
      have hsource : startsClause (plainSource path) = true := rfl
      rw [List.intercalate_singleton,
        upTo?_endsFieldList_append (fun c hc => (h.first_letters c hc).2.2),
        upTo?_endsFieldList_space (flush_plainSource path), hsource]
      simp [keptText]
  | cons next others ih =>
      have hcomma : ∀ c ∈ first ++ [','], isBlank c = false := by
        intro c hc
        rcases List.mem_append.mp hc with hname | hmark
        · exact (h.first_letters c hname).2.2
        · rw [List.mem_singleton.mp hmark]
          decide
      rw [intercalate_names_cons, List.append_assoc, List.cons_append, List.append_cons,
        upTo?_endsFieldList_append hcomma, List.cons_append,
        upTo?_endsFieldList_space (h.tail.flush_intercalate _),
        h.tail.startsClause_names, ih h.tail,
        keptText]
      split <;> simp

/-- Behind a word `DISTINCT` that is passed over, `FROM` is taken for the field list if the path
goes on like a clause. -/
theorem Loadable.spacedText?_source (h : Loadable (first :: others) path) :
    spacedText? startsClause (' ' :: plainSource path) =
      if path.isEmpty || opensClause path then some Keyword.fromSource.letters else none := by
  have hnone : upTo? anyChar endsFieldList (path ++ [';']) = none := by
    rw [← List.append_nil (path ++ [';']), upTo?_endsFieldList_append h.path_unblank]
    rfl
  rw [spacedText?_space (flush_plainSource path), plainSource,
    upTo?_endsFieldList_append Keyword.fromSource.isBlank_letters,
    upTo?_endsFieldList_space h.flush_path, h.startsClause_path, hnone]
  split <;> rfl

theorem Loadable.isPassedOver_iff (h : Loadable (first :: others) path) :
    isPassedOver (first :: others) path = true ↔
      others = [] ∧ after? .distinct first = some [] ∧
        (path.isEmpty || opensClause path) = true := by
  have hfirst : after? .distinct first = some [] ↔
      first.map Char.toUpper = Keyword.distinct.letters :=
    afterLetters?_eq_some_nil_iff fun c hc => (h.first_letters c hc).1
  rw [hfirst, isPassedOver, Bool.and_eq_true, beq_iff_eq, List.map_cons, List.cons_eq_cons,
    List.map_eq_nil_iff, and_assoc, and_left_comm]

theorem Loadable.fieldListAfter?_eq (h : Loadable (first :: others) path) :
    fieldListAfter? (' ' :: ([',', ' '].intercalate (first :: others) ++ ' ' :: plainSource path)) =
      some (if isPassedOver (first :: others) path then Keyword.fromSource.letters
        else keptText first others) := by
  have hflush := h.flush_intercalate (' ' :: plainSource path)
  have hkept := h.upTo?_names
  rw [← spacedText?_space hflush] at hkept
  obtain ⟨mark, rest, hcut, hmark, hcases⟩ := names_eq_append_cons first others path
  have hdistinct :
      after? .distinct ([',', ' '].intercalate (first :: others) ++ ' ' :: plainSource path) =
      (after? .distinct first).map (· ++ mark :: rest) := by
    rw [hcut]
    exact endsAtMark_after? .distinct hmark first rest
  rw [fieldListAfter?, afterBlanks?_space hflush, Option.bind_some, hdistinct, hkept]
  have hpassed := h.isPassedOver_iff
  cases hfirst : after? .distinct first with
  | none =>
      rw [hfirst] at hpassed
      have hnot : ¬ isPassedOver (first :: others) path = true := by simp [hpassed]
      rw [if_neg hnot]
      rfl
  | some tail =>
      rw [hfirst] at hpassed
      rw [Option.map_some]
      cases tail with
      | cons c tail =>
          -- The name goes on behind the letters of the word, where white space is needed.
          have hletters := h.first_letters
          obtain ⟨word, -, rfl⟩ := afterLetters?_eq_some_iff.mp hfirst
          have hnot : ¬ isPassedOver ((word ++ c :: tail) :: others) path = true := by
            simp [hpassed]
          rw [if_neg hnot, List.cons_append]
          show (spacedText? startsClause (c :: (tail ++ mark :: rest))).or _ = _
          rw [spacedText?_cons (hletters c (by simp)).2.2]
          rfl
      | nil =>
          show (spacedText? startsClause (mark :: rest)).or _ = _
          -- The name is the word. What follows it is the source, or a comma and another name.
          rcases hcases with ⟨hnil, hsource⟩ | ⟨hne, rfl⟩
          · have heq : isPassedOver (first :: others) path =
                (path.isEmpty || opensClause path) := by
              rw [Bool.eq_iff_iff, hpassed]
              simp [hnil]
            rw [hsource, h.spacedText?_source, heq]
            split <;> rfl
          · have hnot : ¬ isPassedOver (first :: others) path = true := by simp [hpassed, hne]
            rw [if_neg hnot, spacedText?_cons (by decide)]
            rfl

theorem Loadable.fieldList?_eq (h : Loadable (first :: others) path) :
    fieldList? (plainLoad (first :: others) path) =
      some (if isPassedOver (first :: others) path then Keyword.fromSource.letters
        else keptText first others) := by
  have hhere : (after? .load (plainLoad (first :: others) path)).bind fieldListAfter? =
      some (if isPassedOver (first :: others) path then Keyword.fromSource.letters
        else keptText first others) := by
    rw [plainLoad, after?_self, Option.bind_some, h.fieldListAfter?_eq]
  rw [Script.fieldList?_eq, search?, findFirst?, findFirstAfter?_of_eq_some hhere, Option.map_some]

end FieldList

/-! ## Fields -/

section Fields

variable {first : List Char} {others : List (List Char)}

theorem solid_of_isIdentifier {name : List Char} (h : isIdentifier name = true) : Solid name :=
  have hname := letters_of_isIdentifier h
  solid_of_unblank hname.1 fun c hc => (hname.2 c hc).2.2

theorem undivided_of_isIdentifier {name : List Char} (h : isIdentifier name = true) :
    Undivided name :=
  have hletters := (letters_of_isIdentifier h).2
  (quiet_of_all_isWord (List.all_eq_true.mpr fun c hc => (hletters c hc).2.1)).undivided

/-- A text without white space is a field as it stands. -/
theorem expression_readField {name : List Char} (h : ∀ c ∈ name, isBlank c = false) :
    (readField name).expression = String.ofList name := by
  have hnone : findFirst? (fun _ rest => aliasAt? rest) name = none := by
    refine findFirstAfter?_eq_none (fun part hpart _ => ?_) none
    cases part with
    | nil => rfl
    | cons c part =>
        rw [aliasAt?, afterBlanks?, h c (hpart.subset List.mem_cons_self)]
        rfl
  rw [readField, hnone]

theorem solid_keptText (hnames : ∀ name ∈ first :: others, isIdentifier name = true) :
    Solid (keptText first others) := by
  induction others generalizing first with
  | nil => exact solid_of_isIdentifier (hnames first List.mem_cons_self)
  | cons next others ih =>
      rw [List.forall_mem_cons] at hnames
      have hfirst := solid_of_isIdentifier hnames.1
      rw [keptText]
      split
      · exact (solid_singleton (by decide)).append_left hfirst.flush hfirst.oneLine
      · have hfront : '\n' ∉ first ++ [',', ' '] := by simp [hfirst.oneLine]
        rw [List.append_cons, List.append_cons, List.append_assoc first]
        exact (ih hnames.2).append_left (hfirst.flush.append hfirst.ne_nil _) hfront

/-- The text of the kept names is cut into them. Each but the first has a space before it. -/
theorem splitTopLevel_keptText {lead : List Char} (hlead : Undivided lead)
    (hnames : ∀ name ∈ first :: others, isIdentifier name = true) :
    splitTopLevel (· == ',') (lead ++ keptText first others) =
      (lead ++ first) :: (others.takeWhile fun name => !opensClause name).map (' ' :: ·) := by
  induction others generalizing lead first with
  | nil =>
      have hfirst := undivided_of_isIdentifier (hnames first List.mem_cons_self)
      have hne : lead ++ first ≠ [] := by
        simp [(letters_of_isIdentifier (hnames first List.mem_cons_self)).1]
      rw [splitTopLevel, keptText, topLevelParts_eq_singleton (hlead.append hfirst).comma,
        dropEmptyLast_eq_self (by simpa using hne)]
      rfl
  | cons next others ih =>
      rw [List.forall_mem_cons] at hnames
      have hwhole := hlead.append (undivided_of_isIdentifier hnames.1)
      have hcut := topLevelParts_append_comma hwhole.balanced hwhole.comma
      rw [splitTopLevel, keptText]
      split
      case isTrue hopens =>
        rw [← List.append_assoc, hcut []]
        simp [hopens, commaParts, topLevelParts, dropEmptyLast]
      case isFalse hopens =>
        have hspace : Undivided [' '] := (Blanks.singleton (by decide)).quiet.undivided
        have hlater := ih hspace hnames.2
        have hparts : commaParts (' ' :: keptText next others) ≠ [] :=
          (divided_topLevelParts (by decide) .neutral _).ne_nil
        rw [← List.append_assoc, hcut, dropEmptyLast_cons _ hparts]
        simp only [hopens, List.takeWhile_cons, Bool.not_false, if_true, List.map_cons]
        exact congrArg ((lead ++ first) :: ·) hlater

theorem map_expression_fieldsIn_keptText
    (hnames : ∀ name ∈ first :: others, isIdentifier name = true) :
    (fieldsIn (keptText first others)).map Field.expression =
      (keptNames (first :: others)).map String.ofList := by
  have hnil : Undivided [] := ⟨rfl, rfl⟩
  have hsplit := splitTopLevel_keptText hnil hnames
  rw [List.nil_append, List.nil_append] at hsplit
  have hkept : ∀ name ∈ keptNames (first :: others), isIdentifier name = true := by
    intro name hname
    rcases List.mem_cons.mp hname with rfl | hlater
    · exact hnames _ List.mem_cons_self
    · exact hnames name (List.mem_cons_of_mem _ ((List.takeWhile_sublist _).subset hlater))
  have htrim : (splitTopLevel (· == ',') (keptText first others)).map trim =
      keptNames (first :: others) := by
    have htrimmed : ∀ name ∈ keptNames (first :: others), trim name = name :=
      fun name hname => (solid_of_isIdentifier (hkept name hname)).trim_eq_self
    have hlater : ∀ name ∈ others.takeWhile fun name => !opensClause name,
        (trim ∘ (' ' :: ·)) name = id name := by
      intro name hname
      rw [Function.comp_apply, trim_cons_of_isBlank (by decide)]
      exact htrimmed name (List.mem_cons_of_mem first hname)
    rw [hsplit, List.map_cons, htrimmed first List.mem_cons_self, List.map_map,
      List.map_congr_left hlater, List.map_id]
    rfl
  have hfilter : (keptNames (first :: others)).filter (!·.isEmpty) =
      keptNames (first :: others) := by
    refine List.filter_eq_self.mpr fun name hname => ?_
    simp [(letters_of_isIdentifier (hkept name hname)).1]
  have hstar : keptText first others ≠ ['*'] := by
    intro heq
    rw [heq] at hsplit
    have hfirst : isIdentifier ['*'] = true :=
      (List.cons.inj hsplit).1 ▸ hnames first List.mem_cons_self
    exact absurd hfirst (by decide)
  rw [fieldsIn, (solid_keptText hnames).trim_eq_self, if_neg hstar, htrim, hfilter, List.map_map]
  refine List.map_congr_left fun name hname => ?_
  exact expression_readField fun c hc => ((letters_of_isIdentifier (hkept name hname)).2 c hc).2.2

end Fields

/-! ## Plain loads as scripts -/

section Scripts

variable {names : List (List Char)} {path : List Char}

theorem isMappingLoad_of_nowhere {line : List Char}
    (h : Nowhere (afterPair? .mapping .load) line) : isMappingLoad line = false := by
  have hnone : ∀ part, part <:+ line → ∀ prev : Option Char, (if wordMayStart prev then
      (afterMappingLoad? part).filter fun tail => !startsWord tail else none) = none := by
    intro part hpart prev
    rw [afterMappingLoad?, h part hpart]
    exact ite_self none
  rw [isMappingLoad, findFirst?, findFirstAfter?_eq_none hnone]
  rfl

/-- The script of a plain load has one statement, a load of the fields read in it. -/
theorem Loadable.exists_load (h : Loadable names path) :
    ∃ load, readScript (String.ofList (plainLoad names path)) = .ok [.load load] ∧
      load.fields = readFields (plainLoad names path) := by
  obtain ⟨first, others, rfl⟩ := List.exists_cons_of_ne_nil h.nonempty
  have hassign : isAssignment (plainLoad (first :: others) path) = false := rfl
  have hmapping : isMappingLoad (plainLoad (first :: others) path) = false :=
    isMappingLoad_of_nowhere (h.nowhere_pair (by decide) fun _ => rfl)
  have hload : isLoad (plainLoad (first :: others) path) = true := rfl
  have hjoin : readJoin (plainLoad (first :: others) path) = .ok none := rfl
  have hread : ∃ load, readLine (plainLoad (first :: others) path) = .ok (some (.load load)) ∧
      load.fields = readFields (plainLoad (first :: others) path) := by
    rw [readLine, hassign, hmapping, hload, readLoad, hjoin]
    exact ⟨_, rfl, rfl⟩
  obtain ⟨load, hline, hfields⟩ := hread
  exact ⟨load, readScript_of_statementLines h.statementLines_eq hline, hfields⟩

theorem Loadable.map_expression_readFields (h : Loadable names path) :
    (readFields (plainLoad names path)).map Field.expression =
      if isPassedOver names path then ["FROM"] else (keptNames names).map String.ofList := by
  obtain ⟨first, others, rfl⟩ := List.exists_cons_of_ne_nil h.nonempty
  rw [readFields_eq, h.fieldList?_eq, Option.elim_some]
  split
  case isTrue => rfl
  case isFalse => exact map_expression_fieldsIn_keptText h.identifiers

/-- The fields of a plain load are its names up to the first one behind another that begins like
a word that ends the list, unless its only name is passed over. -/
theorem exists_fields_of_loadable (h : Loadable names path) :
    ∃ load, readScript (String.ofList (plainLoad names path)) = .ok [.load load] ∧
      load.fields.map Field.expression =
        if isPassedOver names path then ["FROM"] else (keptNames names).map String.ofList := by
  obtain ⟨load, hread, hfields⟩ := h.exists_load
  exact ⟨load, hread, hfields ▸ h.map_expression_readFields⟩

/-- The first name may begin like `FROM`; the third is lost, and the fourth with it. -/
theorem exists_fields_of_fromage :
    Loadable ["fromage".toList, "Sales".toList, "whereabouts".toList, "Id".toList]
        "data/sales.csv".toList ∧
      ∃ load, readScript "LOAD fromage, Sales, whereabouts, Id FROM data/sales.csv;" =
          .ok [.load load] ∧
        load.fields.map Field.expression = ["fromage", "Sales"] := by
  have h : Loadable ["fromage".toList, "Sales".toList, "whereabouts".toList, "Id".toList]
      "data/sales.csv".toList := by decide
  obtain ⟨load, hread, hfields⟩ := exists_fields_of_loadable h
  exact ⟨h, load, hread, hfields⟩

/-- As the only name, `DISTINCT` is no field if the path begins like a clause. -/
theorem fields_ne_keptNames_of_distinct :
    Loadable ["DISTINCT".toList] "from.csv".toList ∧
      ¬ ∃ load, readScript "LOAD DISTINCT FROM from.csv;" = .ok [.load load] ∧
        load.fields.map Field.expression =
          (keptNames ["DISTINCT".toList]).map String.ofList := by
  have h : Loadable ["DISTINCT".toList] "from.csv".toList := by decide
  refine ⟨h, ?_⟩
  rintro ⟨load, hread, hkept⟩
  obtain ⟨found, hfound, hfields⟩ := h.exists_load
  have htext : String.ofList (plainLoad ["DISTINCT".toList] "from.csv".toList) =
      "LOAD DISTINCT FROM from.csv;" := by decide
  rw [htext, hread] at hfound
  obtain rfl : load = found := by simpa using hfound
  rw [hfields, h.map_expression_readFields] at hkept
  revert hkept
  decide

end Scripts

end QlikMigration.Script
