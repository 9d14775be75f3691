import Mathlib.Data.List.Forall2
import Mathlib.Data.List.TakeWhile
import QlikMigration.Proofs.Canonical

/-!
# Reading the clauses of a canonical statement

A clause is found by a search through the whole line and reaches to the nearest
place where it may end. In a written canonical statement the search stops at the
clause itself, because nothing before it has its keyword; and the text found is
the text of the clause, because no end can be taken inside it and the next
clause or the semicolon is one.

The position of a clause in a line is `Located`: what stands before it, its own
text, and the clauses that follow up to the semicolon.
-/

namespace QlikMigration.Script

open QlikMigration.Text

/-! ## Texts up to an end -/

/-- A text goes on to the end that is found behind it, if none is found inside. -/
theorem upTo?_append_map {crosses : Char → Bool} {stop : List Char → Bool} {text rest : List Char}
    (hcrosses : ∀ c ∈ text, crosses c = true)
    (hgo : ∀ part, part ≠ [] → part <:+ text → stop (part ++ rest) = false) :
    upTo? crosses stop (text ++ rest) = (upTo? crosses stop rest).map (text ++ ·) := by
  induction text with
  | nil => simp
  | cons c text ih =>
      have hhere : stop (c :: (text ++ rest)) = false :=
        hgo (c :: text) (List.cons_ne_nil c text) (List.suffix_refl _)
      have hlater := ih (fun d hd => hcrosses d (List.mem_cons_of_mem c hd))
        fun part hne hpart => hgo part hne (hpart.trans (List.suffix_cons c text))
      rw [List.cons_append, upTo?, hhere, hcrosses c List.mem_cons_self, hlater,
        if_neg Bool.false_ne_true, if_pos rfl, Option.map_map]
      rfl

/-- A text is found whole if no end is inside it and one is right after it. -/
theorem upTo?_append {crosses : Char → Bool} {stop : List Char → Bool} {text rest : List Char}
    (hcrosses : ∀ c ∈ text, crosses c = true)
    (hgo : ∀ part, part ≠ [] → part <:+ text → stop (part ++ rest) = false)
    (hstop : stop rest = true) : upTo? crosses stop (text ++ rest) = some text := by
  have hhere : upTo? crosses stop rest = some [] := by
    cases rest with
    | nil => simp [upTo?, hstop]
    | cons c rest => simp [upTo?, hstop]
  rw [upTo?_append_map hcrosses hgo, hhere, Option.map_some, List.append_nil]

/-- What follows white space inside a text is a part of the text again, if it does not
end in white space. -/
theorem any_afterBlanks?_append {closes : List Char → Bool} {text tail part : List Char}
    (hlast : ∀ c ∈ text.getLast?, isBlank c = false)
    (hopen : ∀ part, part ≠ [] → part <:+ text → closes (part ++ tail) = false)
    (hne : part ≠ []) (hpart : part <:+ text) :
    (afterBlanks? (part ++ tail)).any closes = false := by
  obtain ⟨c, part, rfl⟩ := List.exists_cons_of_ne_nil hne
  rw [List.cons_append, afterBlanks?]
  by_cases hc : isBlank c = true
  · have hsuffix : part.dropWhile isBlank <:+ text :=
      ((List.dropWhile_suffix isBlank).trans (List.suffix_cons c part)).trans hpart
    have hrest : part.dropWhile isBlank ≠ [] := by
      intro hnil
      have hall : ∀ d ∈ c :: part, isBlank d = true := by
        intro d hd
        rcases List.mem_cons.mp hd with rfl | hmem
        · exact hc
        · exact List.dropWhile_eq_nil_iff.mp hnil d hmem
      obtain ⟨front, rfl⟩ := hpart
      rw [List.getLast?_append_of_ne_nil front hne,
        List.getLast?_eq_some_getLast hne] at hlast
      have hblank := hall _ (List.getLast_mem hne)
      rw [hlast _ rfl] at hblank
      exact Bool.false_ne_true hblank
    rw [if_pos hc, List.dropWhile_append, if_neg (by simpa using hrest)]
    simpa using hopen _ hrest hsuffix
  · rw [if_neg hc]
    rfl

theorem isPrefixOf_singleton_eq_false {c : Char} {cs : List Char} (h : c ∉ cs.head?) :
    [c].isPrefixOf cs = false := by
  rw [isPrefixOf_singleton]
  exact beq_eq_false_iff_ne.mpr h

theorem atEnd_eq_false {cs : List Char} (hne : cs ≠ []) (honeLine : '\n' ∉ cs) :
    atEnd cs = false := by
  unfold atEnd
  split
  · exact absurd rfl hne
  · simp at honeLine
  · rfl

/-- White space and what `closes` accepts, a semicolon or the end of the text. -/
def endsAt (closes : List Char → Bool) (cs : List Char) : Bool :=
  (afterBlanks? cs).any closes || [';'].isPrefixOf cs || atEnd cs

theorem endsAt_eq_false {closes : List Char → Bool} {cs : List Char}
    (hblanks : (afterBlanks? cs).any closes = false) (hne : cs ≠ []) (hsemicolon : ';' ∉ cs.head?)
    (honeLine : '\n' ∉ cs) : endsAt closes cs = false := by
  rw [endsAt, hblanks, isPrefixOf_singleton_eq_false hsemicolon, atEnd_eq_false hne honeLine]
  rfl

section EndsAt

variable {crosses : Char → Bool} {closes : List Char → Bool} {text : List Char}

/-- A text with no end inside it is found up to the semicolon, with the white space
before it. -/
theorem upTo?_endsAt_of_semicolon (hcrosses : ∀ c, c ≠ '\n' → crosses c = true)
    {lead : List Char} (hlead : Blanks lead) (honeLine : '\n' ∉ text ++ (lead ++ [';']))
    (hlast : ∀ c ∈ text.getLast?, isBlank c = false) (hsemicolon : ';' ∉ text)
    (hopen : ∀ part, part ≠ [] → part <:+ text → closes (part ++ (lead ++ [';'])) = false)
    (hcloses : closes [';'] = false) :
    upTo? crosses (endsAt closes) (text ++ (lead ++ [';'])) = some (text ++ lead) := by
  rw [← List.append_assoc] at honeLine ⊢
  have hline : '\n' ∉ text ++ lead := fun hmem => honeLine (List.mem_append_left _ hmem)
  refine upTo?_append (fun c hc => hcrosses c fun heq => hline (heq ▸ hc)) ?_ rfl
  intro part hne hpart
  have hpartLine : '\n' ∉ part ++ [';'] := by
    simp only [List.mem_append, not_or]
    exact ⟨fun hmem => hline (hpart.subset hmem), by decide⟩
  have hwhole : part ++ [';'] ≠ [] := by simp
  have hhead : ';' ∉ (part ++ [';']).head? := by
    rw [List.head?_append_of_ne_nil part hne]
    intro hmem
    rcases List.mem_append.mp (hpart.subset (List.mem_of_mem_head? hmem)) with htext | hblank
    · exact hsemicolon htext
    · exact hlead.not_mem (by decide) hblank
  refine endsAt_eq_false ?_ hwhole hhead hpartLine
  have hinside : ∀ gap, gap ≠ [] → Blanks gap →
      (afterBlanks? (gap ++ [';'])).any closes = false := by
    intro gap hgap hblanks
    rw [hblanks.afterBlanks?_append hgap solid_semicolon.flush]
    exact hcloses
  rcases suffix_append_cases hpart with hblanks | ⟨front, rfl, hfront⟩
  · exact hinside part hne fun c hc => hlead c (hblanks.subset hc)
  · cases front with
    | nil => exact hinside lead hne hlead
    | cons c front =>
        rw [List.append_assoc]
        exact any_afterBlanks?_append hlast hopen (List.cons_ne_nil c front) hfront

/-- A text with no end inside it is found up to the white space before what closes it. -/
theorem upTo?_endsAt_of_closes (hcrosses : ∀ c, c ≠ '\n' → crosses c = true)
    {between rest : List Char} (hbetween : Separator.gap.Writes between) (hrest : Flush rest)
    (honeLine : '\n' ∉ text ++ (between ++ rest))
    (hlast : ∀ c ∈ text.getLast?, isBlank c = false) (hsemicolon : ';' ∉ text)
    (hopen : ∀ part, part ≠ [] → part <:+ text → closes (part ++ (between ++ rest)) = false)
    (hcloses : closes rest = true) :
    upTo? crosses (endsAt closes) (text ++ (between ++ rest)) = some text := by
  obtain ⟨hblanks, hne⟩ := Separator.writes_gap_iff.mp hbetween
  refine upTo?_append (fun c hc => hcrosses c fun heq => ?_) ?_ ?_
  · exact honeLine (List.mem_append_left _ (heq ▸ hc))
  · intro part hpartNe hpart
    refine endsAt_eq_false (any_afterBlanks?_append hlast hopen hpartNe hpart) (by simp [hpartNe])
      ?_ ?_
    · rw [List.head?_append_of_ne_nil part hpartNe]
      exact fun hmem => hsemicolon (hpart.subset (List.mem_of_mem_head? hmem))
    · intro hmem
      rcases List.mem_append.mp hmem with hinside | hafter
      · exact honeLine (List.mem_append_left _ (hpart.subset hinside))
      · exact honeLine (List.mem_append_right _ hafter)
  · simp [endsAt, hblanks.afterBlanks?_append hne hrest, hcloses]

end EndsAt

/-! ## Keywords of rows -/

/-- The keyword `keyword` is no token of the row. -/
def Row.Omits (row : Row) (keyword : Keyword) : Prop :=
  .word keyword ∉ row.tokens

theorem Phrase.omits_row (phrase : Phrase) (keyword : Keyword) : phrase.row.Omits keyword := by
  simp [Row.Omits, Row.tokens, Phrase.row]

theorem Listing.omits_row {α : Type} {row : α → Row} (listing : Listing α) {keyword : Keyword}
    (h : ∀ item, (row item).Omits keyword) : (listing.row row).Omits keyword := by
  intro hmem
  obtain ⟨itemRow, hitem, htoken⟩ := Row.mem_tokens_join.mp hmem
  rw [← List.map_cons, List.mem_map] at hitem
  obtain ⟨item, -, rfl⟩ := hitem
  exact h item htoken

theorem Entry.omits_row (entry : Entry) (keyword : Keyword) : entry.row.Omits keyword := by
  unfold Entry.row
  split
  · exact Phrase.omits_row _ keyword
  · simp [Row.Omits, Row.tokens]

theorem Sorting.omits_row (sorting : Sorting) {keyword : Keyword} (h : keyword ≠ .desc) :
    sorting.row.Omits keyword := by
  have hnames : (sorting.names.row fun name => name.toPhrase.row).Omits keyword :=
    sorting.names.omits_row fun name => name.toPhrase.omits_row keyword
  unfold Sorting.row
  by_cases hdescending : sorting.descending = true
  · simpa [Row.Omits, Row.tokens, hdescending, Row.closedBy, h] using hnames
  · simpa [Row.Omits, hdescending] using hnames

/-- The keyword that opens a clause. -/
def Clause.keyword : Clause → Keyword
  | source (.file _) => .fromSource
  | source (.table _) => .resident
  | condition _ => .whereRows
  | grouping _ => .group
  | sorting _ => .order

/-- The only reserved word in a clause is the one that opens it. -/
theorem Clause.omits_row {clause : Clause} {reserved : Keyword}
    (hreserved : reserved ∈ reservedWords) (hne : clause.keyword ≠ reserved) :
    clause.row.Omits reserved := by
  have hby : reserved ≠ .byFields := by rintro rfl; revert hreserved; decide
  have hdesc : reserved ≠ .desc := by rintro rfl; revert hreserved; decide
  have hopening : Token.word reserved ≠ .word clause.keyword := by simpa using Ne.symm hne
  cases clause with
  | source source =>
      cases source <;> simpa [Row.Omits, Clause.row, Row.tokens, Clause.keyword] using hopening
  | condition test => simpa [Row.Omits, Clause.row, Row.tokens, Clause.keyword] using hopening
  | grouping names =>
      have hnames : (names.row fun name => name.toPhrase.row).Omits reserved :=
        names.omits_row fun name => name.toPhrase.omits_row reserved
      rw [Row.Omits, Clause.row, Row.tokens_prepend]
      simp only [List.map_cons, List.map_nil, List.cons_append, List.nil_append, List.mem_cons,
        not_or]
      exact ⟨hopening, by simpa using hby, hnames⟩
  | sorting order =>
      rw [Row.Omits, Clause.row, Row.tokens_prepend]
      simp only [List.map_cons, List.map_nil, List.cons_append, List.nil_append, List.mem_cons,
        not_or]
      exact ⟨hopening, by simpa using hby, order.omits_row hdesc⟩

/-! ## The clauses of a line -/

/-- A text is made of clauses, each after a gap, and a semicolon after the last. -/
def Follows : List Clause → List Char → Prop
  | [], tail => ∃ lead, Blanks lead ∧ tail = lead ++ [';']
  | next :: later, tail => ∃ between text rest, Separator.gap.Writes between ∧
      next.row.Writes text ∧ Follows later rest ∧ tail = between ++ (text ++ rest)

/-- A clause stands in a line after the pieces `front` and before the clauses `later`. -/
def Located (clause : Clause) (front : List Piece) (later : List Clause) (line : List Char) :
    Prop :=
  ∃ start text tail, Written front start ∧ clause.row.Writes text ∧ Follows later tail ∧
    line = start ++ (text ++ tail)

/-- The first clause of a statement is located in each of its written forms. -/
theorem located_of_writesClosed {clause : Clause} {front : List Piece} {later : List Clause}
    {line : List Char}
    (h : (Row.prepend front (.join .gap clause.row (later.map Clause.row))).WritesClosed line) :
    Located clause front later line := by
  obtain ⟨_, lead, hwrites, hlead, rfl⟩ := h
  obtain ⟨start, whole, hstart, hwhole, rfl⟩ := Row.writes_prepend_iff.mp hwrites
  suffices hsuffices : ∃ text tail, clause.row.Writes text ∧ Follows later tail ∧
      whole ++ (lead ++ [';']) = text ++ tail by
    obtain ⟨text, tail, htext, htail, heq⟩ := hsuffices
    exact ⟨start, text, tail, hstart, htext, htail, by rw [List.append_assoc, heq]⟩
  clear hwrites hstart
  induction later generalizing clause whole with
  | nil => exact ⟨whole, lead ++ [';'], hwhole, ⟨lead, hlead, rfl⟩, rfl⟩
  | cons next later ih =>
      obtain ⟨text, between, rest, htext, hbetween, hrest, rfl⟩ :=
        Row.writes_join_cons_iff.mp hwhole
      obtain ⟨nextText, tail, hnext, htail, heq⟩ := ih rest hrest
      exact ⟨text, between ++ (nextText ++ tail), htext,
        ⟨between, nextText, tail, hbetween, hnext, htail, rfl⟩, by simp [← heq]⟩

/-- The clause after a located one is located. -/
theorem Located.next {clause next : Clause} {front : List Piece} {later : List Clause}
    {line : List Char} (h : Located clause front (next :: later) line) :
    Located next (front ++ clause.row.closedBy .gap) later line := by
  obtain ⟨start, text, _, hstart, htext, ⟨between, nextText, tail, hbetween, hnext, htail, rfl⟩,
    rfl⟩ := h
  refine ⟨start ++ (text ++ between), nextText, tail, ?_, hnext, htail, by simp⟩
  exact Written.append_iff.mpr ⟨start, text ++ between, hstart,
    Row.written_closedBy_iff.mpr ⟨text, between, htext, hbetween, rfl⟩, rfl⟩

namespace Follows

variable {later : List Clause} {tail : List Char}

/-- White space or a semicolon follows a clause. -/
theorem exists_cons (h : Follows later tail) :
    ∃ c rest, tail = c :: rest ∧ (isBlank c = true ∨ c = ';') := by
  cases later with
  | nil =>
      obtain ⟨lead, hlead, rfl⟩ := h
      cases lead with
      | nil => exact ⟨';', [], rfl, Or.inr rfl⟩
      | cons c lead => exact ⟨c, _, rfl, Or.inl (hlead c List.mem_cons_self)⟩
  | cons next later =>
      obtain ⟨between, text, rest, hbetween, -, -, rfl⟩ := h
      obtain ⟨hblanks, hne⟩ := Separator.writes_gap_iff.mp hbetween
      obtain ⟨c, between, rfl⟩ := List.exists_cons_of_ne_nil hne
      exact ⟨c, _, rfl, Or.inl (hblanks c List.mem_cons_self)⟩

/-- Letters that a text lacks are not found where it is followed by clauses. -/
theorem afterLetters?_append (h : Follows later tail) {letters text part : List Char}
    (hcapital : Capital letters) (htext : Lacks letters text) (hpart : part <:+ text) :
    afterLetters? letters (part ++ tail) = none := by
  obtain ⟨c, rest, rfl, hc⟩ := h.exists_cons
  have hword : isWord c = false := by
    rcases hc with hblank | rfl
    · exact isWord_of_isBlank hblank
    · decide
  exact Capital.afterLetters?_append_of_not_isWord hcapital.upper (htext part hpart) hword rest

/-- A text and the clauses after it lack what each of them lacks. -/
theorem lacks_append (h : Follows later tail) {letters text : List Char}
    (hcapital : Capital letters) (htext : Lacks letters text) (htail : Lacks letters tail) :
    Lacks letters (text ++ tail) := by
  intro part hpart
  rcases suffix_append_cases hpart with hinside | ⟨front, rfl, hfront⟩
  · exact htail part hinside
  · exact h.afterLetters?_append hcapital htext hfront

/-- Clauses with other keywords lack a reserved word. -/
theorem lacks (h : Follows later tail) {reserved : Keyword}
    (hreserved : reserved ∈ reservedWords)
    (hlater : ∀ clause ∈ later, clause.row.Omits reserved) : Lacks reserved.letters tail := by
  induction later generalizing tail with
  | nil =>
      obtain ⟨lead, hlead, rfl⟩ := h
      have hwordless : Wordless (lead ++ [';']) := hlead.wordless_append_singleton (by decide)
      exact (reserved.capital.seals_of_wordless hwordless).lacks reserved.capital
  | cons next later ih =>
      obtain ⟨between, text, rest, hbetween, htext, hrest, rfl⟩ := h
      have hseparator := reserved.capital.seals_of_wordless hbetween.wordless
      have hnext := htext.lacks hreserved (hlater next List.mem_cons_self)
      have hlacks := ih hrest fun clause hclause => hlater clause (List.mem_cons_of_mem _ hclause)
      exact hseparator.lacks_append (hrest.lacks_append reserved.capital hnext hlacks)

/-- A text that is followed by clauses is found up to the first of them, or up to the
semicolon, with some white space. -/
theorem exists_upTo?_endsAt (h : Follows later tail) {crosses : Char → Bool}
    (hcrosses : ∀ c, c ≠ '\n' → crosses c = true) {closes : List Char → Bool} {text : List Char}
    (honeLine : '\n' ∉ text ++ tail) (hlast : ∀ c ∈ text.getLast?, isBlank c = false)
    (hsemicolon : ';' ∉ text)
    (hopen : ∀ part, part ≠ [] → part <:+ text → closes (part ++ tail) = false)
    (hstop : closes [';'] = false)
    (hlater : ∀ next ∈ later.head?, ∀ text rest, next.row.Writes text →
      closes (text ++ rest) = true) :
    ∃ pad, Blanks pad ∧ upTo? crosses (endsAt closes) (text ++ tail) = some (text ++ pad) := by
  cases later with
  | nil =>
      obtain ⟨lead, hlead, rfl⟩ := h
      exact ⟨lead, hlead, upTo?_endsAt_of_semicolon hcrosses hlead honeLine hlast hsemicolon
        hopen hstop⟩
  | cons next later =>
      obtain ⟨between, nextText, rest, hbetween, hnext, -, rfl⟩ := h
      have hflush : Flush (nextText ++ rest) := hnext.flush.append hnext.ne_nil rest
      refine ⟨[], Blanks.nil, ?_⟩
      rw [List.append_nil]
      exact upTo?_endsAt_of_closes hcrosses hbetween hflush honeLine hlast hsemicolon hopen
        (hlater next rfl nextText rest hnext)

end Follows

/-- A line whose pieces and clauses omit a reserved word lacks its letters. -/
theorem Located.lacks {clause : Clause} {front : List Piece} {later : List Clause}
    {line : List Char} (h : Located clause front later line) {reserved : Keyword}
    (hreserved : reserved ∈ reservedWords) (hfront : ∀ piece ∈ front, piece.1 ≠ .word reserved)
    (hclauses : ∀ other ∈ clause :: later, other.row.Omits reserved) :
    Lacks reserved.letters line := by
  obtain ⟨start, text, tail, hstart, htext, htail, rfl⟩ := h
  have hclause := htext.lacks hreserved (hclauses clause List.mem_cons_self)
  have hlater := htail.lacks hreserved fun other hother =>
    hclauses other (List.mem_cons_of_mem clause hother)
  exact (hstart.seals hreserved hfront).lacks_append
    (htail.lacks_append reserved.capital hclause hlater)

/-! ## Conditions -/

/-- Whether `GROUP BY` or `ORDER BY` stands here. -/
def closesCondition (cs : List Char) : Bool :=
  (afterPair? .group .byFields cs).isSome || (afterPair? .order .byFields cs).isSome

/-- Two keywords with white space between them are found where they stand. -/
theorem afterPair?_append (first second : Keyword) {between : List Char}
    (hbetween : Separator.gap.Writes between) (rest : List Char) :
    afterPair? first second (first.letters ++ (between ++ (second.letters ++ rest))) =
      some rest := by
  obtain ⟨hblanks, hne⟩ := Separator.writes_gap_iff.mp hbetween
  have hflush : Flush (second.letters ++ rest) := second.solid.flush.append second.solid.ne_nil rest
  simp [afterPair?, afterSpaced?, hblanks.afterBlanks?_append hne hflush]

theorem afterPair?_eq_none {first second : Keyword} {cs : List Char} (h : after? first cs = none) :
    afterPair? first second cs = none := by
  simp [afterPair?, afterSpaced?, h]

/-- A clause whose keyword has `BY` after it. -/
theorem exists_of_writes_by {keyword : Keyword} {row : Row} {text : List Char}
    (h : (Row.prepend [(.word keyword, .gap), (.word .byFields, .gap)] row).Writes text) :
    ∃ first second rest, Separator.gap.Writes first ∧ Separator.gap.Writes second ∧
      row.Writes rest ∧
      text = keyword.letters ++ (first ++ (Keyword.byFields.letters ++ (second ++ rest))) := by
  obtain ⟨_, rest, hstart, hrest, rfl⟩ := Row.writes_prepend_iff.mp h
  obtain ⟨first, _, hfirst, hmore, rfl⟩ := Written.cons_iff.mp hstart
  obtain ⟨second, _, hsecond, hnil, rfl⟩ := Written.cons_iff.mp hmore
  cases hnil
  exact ⟨first, second, rest, hfirst, hsecond, hrest, by simp [Token.chars]⟩

/-- A grouping begins with `GROUP BY`, and a sorting with `ORDER BY`. -/
theorem Clause.isSome_afterPair? {clause : Clause} {keyword : Keyword}
    (hkeyword : keyword = .group ∨ keyword = .order) (hclause : clause.keyword = keyword)
    {text : List Char} (htext : clause.row.Writes text) (rest : List Char) :
    (afterPair? keyword .byFields (text ++ rest)).isSome = true := by
  have hby : ∃ row, clause.row = .prepend [(.word keyword, .gap), (.word .byFields, .gap)] row := by
    subst hclause
    cases clause with
    | source source => cases source <;> simp [Clause.keyword] at hkeyword
    | condition test => simp [Clause.keyword] at hkeyword
    | grouping names => exact ⟨_, rfl⟩
    | sorting order => exact ⟨_, rfl⟩
  obtain ⟨row, hrow⟩ := hby
  rw [hrow] at htext
  obtain ⟨first, second, body, hfirst, -, -, rfl⟩ := exists_of_writes_by htext
  have hpair := afterPair?_append keyword .byFields hfirst (second ++ (body ++ rest))
  simp only [List.append_assoc]
  rw [hpair]
  rfl

theorem closesCondition_of_clause {clause : Clause}
    (hclause : clause.keyword = .group ∨ clause.keyword = .order) {text : List Char}
    (htext : clause.row.Writes text) (rest : List Char) :
    closesCondition (text ++ rest) = true := by
  rw [closesCondition, Bool.or_eq_true]
  rcases hclause with hgroup | horder
  · exact Or.inl (Clause.isSome_afterPair? (Or.inl rfl) hgroup htext rest)
  · exact Or.inr (Clause.isSome_afterPair? (Or.inr rfl) horder htext rest)

/-- A clause that is a keyword and a phrase. -/
theorem exists_of_writes_phrase {keyword : Keyword} {phrase : Phrase} {text : List Char}
    (h : Row.Writes ⟨[(.word keyword, .gap)], .phrase phrase⟩ text) :
    ∃ between, Separator.gap.Writes between ∧
      text = keyword.letters ++ (between ++ phrase.chars) := by
  obtain ⟨_, hstart, rfl⟩ := h
  obtain ⟨between, _, hbetween, hnil, rfl⟩ := Written.cons_iff.mp hstart
  cases hnil
  exact ⟨between, hbetween, by simp [Token.chars]⟩

/-- A clause that is a keyword and a phrase, in its place. -/
theorem Located.exists_of_phrase {clause : Clause} {front : List Piece} {later : List Clause}
    {line : List Char} (h : Located clause front later line) {keyword : Keyword} {phrase : Phrase}
    (hrow : clause.row = ⟨[(.word keyword, .gap)], .phrase phrase⟩) :
    ∃ start between tail, Written front start ∧ Separator.gap.Writes between ∧
      Follows later tail ∧
      line = start ++ (keyword.letters ++ (between ++ (phrase.chars ++ tail))) := by
  obtain ⟨start, text, tail, hstart, htext, htail, rfl⟩ := h
  rw [hrow] at htext
  obtain ⟨between, hbetween, rfl⟩ := exists_of_writes_phrase htext
  exact ⟨start, between, tail, hstart, hbetween, htail, by simp⟩

/-- The condition of a statement is found as it was written. -/
theorem readCondition?_of_located {test : Phrase} {front : List Piece} {later : List Clause}
    {line : List Char} (h : Located (.condition test) front later line) (honeLine : '\n' ∉ line)
    (hfront : ∀ piece ∈ front, piece.1 ≠ .word .whereRows)
    (hlater : ∀ next ∈ later.head?, next.keyword = .group ∨ next.keyword = .order) :
    readCondition? line = some test.chars := by
  obtain ⟨start, between, tail, hstart, hbetween, htail, rfl⟩ := h.exists_of_phrase rfl
  obtain ⟨hblanks, hne⟩ := Separator.writes_gap_iff.mp hbetween
  have hopen : ∀ part, part ≠ [] → part <:+ test.chars →
      closesCondition (part ++ tail) = false := by
    intro part _ hpart
    have hgroup : after? .group (part ++ tail) = none :=
      htail.afterLetters?_append Keyword.group.capital (test.lacks (by decide)) hpart
    have horder : after? .order (part ++ tail) = none :=
      htail.afterLetters?_append Keyword.order.capital (test.lacks (by decide)) hpart
    rw [closesCondition, afterPair?_eq_none hgroup, afterPair?_eq_none horder]
    rfl
  have htestLine : '\n' ∉ test.chars ++ tail := by
    simp only [List.mem_append, not_or] at honeLine ⊢
    exact honeLine.2.2.2
  have hanyChar : ∀ c, c ≠ '\n' → anyChar c = true := fun _ _ => rfl
  obtain ⟨pad, hpad, hupTo⟩ := htail.exists_upTo?_endsAt hanyChar htestLine test.solid.last
    test.not_mem_semicolon hopen (by decide)
    fun next hnext text rest htext => closesCondition_of_clause (hlater next hnext) htext rest
  have hflush : Flush (test.chars ++ tail) := test.solid.flush.append test.solid.ne_nil tail
  have hhit : (afterBlanks? (between ++ (test.chars ++ tail))).bind (upTo? anyChar endsCondition) =
      some (test.chars ++ pad) := by
    rw [hblanks.afterBlanks?_append hne hflush]
    exact hupTo
  rw [readCondition?, searchWord?_append (hstart.seals (by decide) hfront)
    hstart.startsWordAfter hhit]
  exact congrArg some (test.solid.trim_append_right hpad)

/-! ## Lists of names -/

/-- A way to cut a text at commas that leaves undivided texts whole. -/
structure CommaCut (cut : List Char → List (List Char)) (Undivided : List Char → Prop) : Prop where
  cons : ∀ text rest, Undivided text → cut (text ++ ',' :: rest) = text :: cut rest
  single : ∀ text, Undivided text → cut text = [text]
  pad : ∀ lead text trail, Blanks lead → Undivided text → Blanks trail →
    Undivided (lead ++ (text ++ trail))

/-- Undivided texts with commas between them are found again by cutting and trimming. -/
theorem CommaCut.forall₂_map_trim {cut : List Char → List (List Char)}
    {Undivided : List Char → Prop} (hcut : CommaCut cut Undivided) {α : Type} {row : α → Row}
    (hrow : ∀ item text, (row item).Writes text → Undivided text) {listing : Listing α}
    {cs : List Char} (h : (listing.row row).Writes cs) (honeLine : '\n' ∉ cs)
    {lead trail : List Char} (hlead : Blanks lead) (htrail : Blanks trail) :
    List.Forall₂ (fun item text => (row item).Writes text ∧ '\n' ∉ text) listing.toList
      ((cut (lead ++ (cs ++ trail))).map trim) := by
  obtain ⟨first, others⟩ := listing
  unfold Listing.row at h
  unfold Listing.toList
  induction others generalizing first cs lead with
  | nil =>
      have hundivided : Undivided cs := hrow first cs h
      rw [hcut.single _ (hcut.pad lead cs trail hlead hundivided htrail), List.map_singleton,
        Solid.trim_append (Row.Writes.solid h honeLine) hlead htrail]
      exact .cons ⟨h, honeLine⟩ .nil
  | cons next others ih =>
      obtain ⟨text, _, rest, htext, hbetween, hrest, rfl⟩ := Row.writes_join_cons_iff.mp h
      obtain ⟨before, after, hbefore, hafter, rfl⟩ := Separator.writes_comma_iff.mp hbetween
      simp only [List.mem_append, List.mem_cons, not_or] at honeLine
      have hlater := ih honeLine.2.2 hafter next hrest
      have hwhole : lead ++ (text ++ (before ++ ',' :: after ++ rest) ++ trail) =
          (lead ++ (text ++ before)) ++ ',' :: (after ++ (rest ++ trail)) := by simp
      have hundivided := hcut.pad lead text before hlead (hrow first text htext) hbefore
      rw [hwhole, hcut.cons _ _ hundivided, List.map_cons,
        Solid.trim_append (htext.solid honeLine.1) hlead hbefore]
      exact .cons ⟨htext, honeLine.1⟩ hlater

theorem not_mem_comma_of_blanks {gap : List Char} (hgap : Blanks gap) : ',' ∉ gap :=
  hgap.not_mem (by decide)

theorem commaCut_splitOn : CommaCut (List.splitOn ',') fun text => ',' ∉ text where
  cons _ rest htext := List.splitOn_append_cons_self_of_not_mem htext rest
  single _ htext := List.splitOn_eq_singleton htext
  pad lead text trail hlead htext htrail := by
    simp [not_mem_comma_of_blanks hlead, htext, not_mem_comma_of_blanks htrail]

theorem Identifier.not_mem_comma (name : Identifier) : ',' ∉ name.chars := by
  intro hmem
  have hword := List.all_eq_true.mp name.word _ hmem
  exact absurd hword (by decide)

theorem Phrase.writes_row_iff {phrase : Phrase} {cs : List Char} :
    phrase.row.Writes cs ↔ cs = phrase.chars := by
  constructor
  · rintro ⟨start, hstart, rfl⟩
    cases hstart
    rfl
  · rintro rfl
    exact ⟨[], .nil, rfl⟩

/-- Names with commas between them are read back, whatever white space stands around
them. -/
theorem readNames_of_writes {α : Type} {name : α → Identifier} {names : Listing α}
    {cs : List Char} (h : (names.row fun item => (name item).toPhrase.row).Writes cs)
    (honeLine : '\n' ∉ cs) {trail : List Char} (htrail : Blanks trail) :
    readNames (cs ++ trail) = names.toList.map fun item => (name item).text := by
  have hcut := commaCut_splitOn.forall₂_map_trim (fun item text htext => ?_) h honeLine Blanks.nil
    htrail
  · have htexts : (List.splitOn ',' (cs ++ trail)).map trim =
        names.toList.map fun item => (name item).chars := by
      rw [← List.forall₂_eq_eq_eq, List.forall₂_map_right_iff]
      exact (hcut.imp fun item text hitem => Phrase.writes_row_iff.mp hitem.1).flip
    have hread : readNames (cs ++ trail) =
        ((List.splitOn ',' (cs ++ trail)).map trim).map String.ofList := by
      rw [List.map_map]
      rfl
    rw [hread, htexts, List.map_map]
    rfl
  · rw [Phrase.writes_row_iff.mp htext]
    exact (name item).not_mem_comma

/-! ## Groupings -/

/-- A clause that is two keywords and a row, in its place. -/
theorem Located.exists_of_by {clause : Clause} {front : List Piece} {later : List Clause}
    {line : List Char} (h : Located clause front later line) (honeLine : '\n' ∉ line)
    {keyword : Keyword} {row : Row}
    (hrow : clause.row = .prepend [(.word keyword, .gap), (.word .byFields, .gap)] row) :
    ∃ start afterKeyword between text tail, Written front start ∧ row.Writes text ∧
      Separator.gap.Writes between ∧ Follows later tail ∧
      afterBy? afterKeyword = some (between ++ (text ++ tail)) ∧ '\n' ∉ text ++ tail ∧
      line = start ++ (keyword.letters ++ afterKeyword) := by
  obtain ⟨start, whole, tail, hstart, hwhole, htail, rfl⟩ := h
  rw [hrow] at hwhole
  obtain ⟨first, second, text, hfirst, hsecond, htext, rfl⟩ := exists_of_writes_by hwhole
  obtain ⟨hblanks, hne⟩ := Separator.writes_gap_iff.mp hfirst
  have hflush : Flush (Keyword.byFields.letters ++ (second ++ (text ++ tail))) :=
    Keyword.byFields.solid.flush.append Keyword.byFields.solid.ne_nil _
  refine ⟨start, first ++ (Keyword.byFields.letters ++ (second ++ (text ++ tail))), second, text,
    tail, hstart, htext, hsecond, htail, ?_, ?_, ?_⟩
  · rw [afterBy?, hblanks.afterBlanks?_append hne hflush]
    exact after?_self .byFields _
  · simp only [List.mem_append, not_or] at honeLine ⊢
    exact ⟨honeLine.2.1.2.2.2.2, honeLine.2.2⟩
  · simp

theorem withinLine_of_ne {c : Char} (h : c ≠ '\n') : withinLine c = true := by
  simpa [withinLine] using h

/-- Whether `ORDER BY` stands here. -/
def closesGrouping (cs : List Char) : Bool :=
  (afterPair? .order .byFields cs).isSome

theorem endsGrouping_eq : endsGrouping = endsAt closesGrouping := rfl

/-- The grouping of a statement is found as it was written. -/
theorem readGrouping?_of_located {names : Listing Identifier} {front : List Piece}
    {later : List Clause} {line : List Char} (h : Located (.grouping names) front later line)
    (honeLine : '\n' ∉ line) (hfront : ∀ piece ∈ front, piece.1 ≠ .word .group)
    (hlater : ∀ next ∈ later.head?, next.keyword = .order) :
    readGrouping? line = some (names.toList.map fun name => name.text) := by
  obtain ⟨start, afterGroup, between, text, tail, hstart, htext, hbetween, htail, hby, hline,
    rfl⟩ := h.exists_of_by honeLine rfl
  obtain ⟨hblanks, hne⟩ := Separator.writes_gap_iff.mp hbetween
  have horder : Lacks Keyword.order.letters text :=
    htext.lacks (by decide) (names.omits_row fun name => name.toPhrase.omits_row .order)
  have hopen : ∀ part, part ≠ [] → part <:+ text → closesGrouping (part ++ tail) = false := by
    intro part _ hpart
    have hnone : after? .order (part ++ tail) = none :=
      htail.afterLetters?_append Keyword.order.capital horder hpart
    rw [closesGrouping, afterPair?_eq_none hnone]
    rfl
  obtain ⟨pad, hpad, hupTo⟩ := htail.exists_upTo?_endsAt (fun _ => withinLine_of_ne) hline
    htext.last htext.not_mem_semicolon hopen (by decide)
    fun next hnext text rest hwrites =>
      Clause.isSome_afterPair? (Or.inr rfl) (hlater next hnext) hwrites rest
  have hflush : Flush (text ++ tail) := htext.flush.append htext.ne_nil tail
  have hgrouping : groupingAt? (between ++ (text ++ tail)) = some (text ++ pad) := by
    rw [groupingAt?, hblanks.takeWhile_append hflush, hblanks.dropWhile_append hflush,
      endsGrouping_eq, hupTo, if_neg (by simpa using hne)]
  have hhit : (afterBy? afterGroup).bind groupingAt? = some (text ++ pad) := by
    rw [hby]
    exact hgrouping
  have htextLine : '\n' ∉ text := fun hmem => hline (List.mem_append_left _ hmem)
  rw [readGrouping?, searchWord?_append (hstart.seals (by decide) hfront) hstart.startsWordAfter
    hhit, Option.map_some, (htext.solid htextLine).trim_append_right hpad]
  have hnames := readNames_of_writes htext htextLine Blanks.nil
  rw [List.append_nil] at hnames
  exact congrArg some hnames

/-! ## Sort orders -/

/-- Where a pattern does not start, replacing it changes nothing. -/
theorem replace_append {pattern replacement cs rest : List Char}
    (h : ∀ part, part ≠ [] → part <:+ cs → pattern.isPrefixOf (part ++ rest) = false) :
    replace pattern replacement (cs ++ rest) = cs ++ replace pattern replacement rest := by
  unfold replace
  induction cs with
  | nil => rfl
  | cons c cs ih =>
      have hhere := h (c :: cs) (List.cons_ne_nil c cs) (List.suffix_refl _)
      rw [List.cons_append] at hhere
      have hlater := ih fun part hne hpart => h part hne (hpart.trans (List.suffix_cons c cs))
      rw [List.cons_append, replaceFrom, hhere, hlater]
      rfl

/-- Letters that do not stand at the start of a text in any case do not stand there in
capitals. -/
theorem isPrefixOf_eq_false_of_afterLetters? {letters cs : List Char}
    (hself : ∀ letter ∈ letters, letterMatches letter letter = true)
    (h : afterLetters? letters cs = none) : letters.isPrefixOf cs = false := by
  induction letters generalizing cs with
  | nil => simp [afterLetters?] at h
  | cons letter letters ih =>
      cases cs with
      | nil => rfl
      | cons c cs =>
          by_cases hc : letter = c
          · subst hc
            rw [afterLetters?, if_pos (hself letter List.mem_cons_self)] at h
            have hlater := ih (fun other hother => hself other (List.mem_cons_of_mem _ hother)) h
            simpa [List.isPrefixOf] using hlater
          · simp [List.isPrefixOf, hc]

/-- The letters of a direction in a sort order. -/
def ascLetters : List Char := ['A', 'S', 'C']

theorem capital_ascLetters : Capital ascLetters :=
  ⟨by decide, List.all_eq_true.mp (by decide)⟩

namespace SortName

theorem lacks_asc (name : SortName) : Lacks ascLetters name.chars := by
  have hundirected := name.undirected
  rw [Bool.or_eq_false_iff] at hundirected
  exact lacks_of_mentions_eq_false name.ascii hundirected.1

theorem lacks_desc (name : SortName) : Lacks Keyword.desc.letters name.chars := by
  have hundirected := name.undirected
  rw [Bool.or_eq_false_iff] at hundirected
  exact lacks_of_mentions_eq_false name.ascii hundirected.2

/-- Names with commas between them lack what each of them lacks. -/
theorem lacks_of_writes {names : Listing SortName} {letters : List Char}
    (hcapital : Capital letters) (hlacks : ∀ name : SortName, Lacks letters name.chars)
    {cs : List Char} (h : (names.row fun name => name.toPhrase.row).Writes cs) :
    Lacks letters cs := by
  apply Row.Writes.lacks_of_tokens h hcapital
  intro token htoken
  obtain ⟨row, hrow, hmem⟩ := Row.mem_tokens_join.mp htoken
  rw [← List.map_cons (f := fun name : SortName => name.toPhrase.row), List.mem_map] at hrow
  obtain ⟨name, -, rfl⟩ := hrow
  obtain rfl : token = .phrase name.toPhrase := by simpa [Row.tokens, Phrase.row] using hmem
  exact hlacks name

end SortName

theorem replace_eq_self {letters cs : List Char}
    (hself : ∀ letter ∈ letters, letterMatches letter letter = true) (hlacks : Lacks letters cs) :
    replace letters [] cs = cs := by
  have happend : replace letters [] (cs ++ []) = cs ++ replace letters [] [] := by
    apply replace_append
    intro part _ hpart
    rw [List.append_nil]
    exact isPrefixOf_eq_false_of_afterLetters? hself (hlacks part hpart)
  simpa [replace, replaceFrom] using happend

/-- A sort order as it is read from the text between `ORDER BY` and its end. -/
def orderingOf (names : List Char) : Ordering where
  fields := readNames (replace ascLetters [] (replace Keyword.desc.letters [] names))
  ascending := !mentionsDesc names

/-- A sort order is read back from each of its written forms. -/
theorem Sorting.orderingOf_of_writes {sorting : Sorting} {cs : List Char}
    (h : sorting.row.Writes cs) (honeLine : '\n' ∉ cs) : orderingOf cs = sorting.ordering := by
  have hasc : ∀ letter ∈ ascLetters, letterMatches letter letter = true :=
    List.all_eq_true.mp (by decide)
  have hdesc : ∀ letter ∈ Keyword.desc.letters, letterMatches letter letter = true :=
    List.all_eq_true.mp (by decide)
  have hled : ∀ rest, afterLetters? Keyword.desc.letters rest = none → after? .desc rest = none :=
    fun _ hnone => hnone
  obtain ⟨names, descending⟩ := sorting
  cases descending with
  | false =>
      have hnames : (names.row fun name => name.toPhrase.row).Writes cs := h
      have hlacksDesc := SortName.lacks_of_writes Keyword.desc.capital SortName.lacks_desc hnames
      have hlacksAsc := SortName.lacks_of_writes capital_ascLetters SortName.lacks_asc hnames
      have hread := readNames_of_writes hnames honeLine Blanks.nil
      rw [List.append_nil] at hread
      rw [orderingOf, replace_eq_self hdesc hlacksDesc, replace_eq_self hasc hlacksAsc, hread,
        mentionsDesc, search?_eq_none hled hlacksDesc]
      rfl
  | true =>
      obtain ⟨_, hstart, rfl⟩ := h
      obtain ⟨text, between, htext, hbetween, rfl⟩ := Row.written_closedBy_iff.mp hstart
      have hlacksDesc := SortName.lacks_of_writes Keyword.desc.capital SortName.lacks_desc htext
      have hlacksAsc := SortName.lacks_of_writes capital_ascLetters SortName.lacks_asc htext
      have hseals : Seals Keyword.desc.letters (text ++ between) :=
        Keyword.desc.capital.seals_append hlacksDesc hbetween.ne_nil hbetween.wordless
      have hlacks : Lacks ascLetters (text ++ between) :=
        (capital_ascLetters.seals_append hlacksAsc hbetween.ne_nil hbetween.wordless).lacks
          capital_ascLetters
      have hremoved : replace Keyword.desc.letters [] (text ++ between ++ Keyword.desc.letters) =
          text ++ between ++ replace Keyword.desc.letters [] Keyword.desc.letters :=
        replace_append fun part hne hpart =>
          isPrefixOf_eq_false_of_afterLetters? hdesc (hseals part hne hpart _)
      have hnothing : replace Keyword.desc.letters [] Keyword.desc.letters = [] := by decide
      have htextLine : '\n' ∉ text := by
        simp only [List.mem_append, not_or] at honeLine
        exact honeLine.1.1
      have hread := readNames_of_writes htext htextLine (Separator.writes_gap_iff.mp hbetween).1
      have hfound : search? (after? .desc) (text ++ between ++ Keyword.desc.letters) = some [] :=
        search?_append hled hseals (by decide)
      have hchars : Token.chars (.word .desc) = Keyword.desc.letters := rfl
      rw [orderingOf, Sorting.row, if_pos rfl, hchars, hremoved, hnothing, List.append_nil,
        replace_eq_self hasc hlacks, hread, mentionsDesc, hfound]
      rfl

/-- No clause may stand after a sort order. -/
def closesOrdering (_ : List Char) : Bool :=
  false

theorem endsOrdering_eq : endsOrdering = endsAt closesOrdering := by
  funext cs
  cases hblanks : afterBlanks? cs <;> simp [endsOrdering, endsAt, hblanks, closesOrdering]

/-- The sort order of a statement is found as it was written. -/
theorem readOrdering?_of_located {sorting : Sorting} {front : List Piece} {line : List Char}
    (h : Located (.sorting sorting) front [] line) (honeLine : '\n' ∉ line)
    (hfront : ∀ piece ∈ front, piece.1 ≠ .word .order) :
    readOrdering? line = some sorting.ordering := by
  obtain ⟨start, afterOrder, between, text, tail, hstart, htext, hbetween, htail, hby, hline,
    rfl⟩ := h.exists_of_by honeLine rfl
  obtain ⟨hblanks, hne⟩ := Separator.writes_gap_iff.mp hbetween
  have hopen : ∀ part, part ≠ [] → part <:+ text → closesOrdering (part ++ tail) = false :=
    fun _ _ _ => rfl
  obtain ⟨pad, hpad, hupTo⟩ := htail.exists_upTo?_endsAt (fun _ => withinLine_of_ne) hline
    htext.last htext.not_mem_semicolon hopen rfl (by simp)
  have hflush : Flush (text ++ tail) := htext.flush.append htext.ne_nil tail
  have hhit : ((afterBy? afterOrder).bind fun afterOrderBy =>
      (afterBlanks? afterOrderBy).bind (upTo? withinLine endsOrdering)) = some (text ++ pad) := by
    rw [hby, Option.bind_some, hblanks.afterBlanks?_append hne hflush, endsOrdering_eq]
    exact hupTo
  have htextLine : '\n' ∉ text := fun hmem => hline (List.mem_append_left _ hmem)
  rw [readOrdering?, searchWord?_append (hstart.seals (by decide) hfront) hstart.startsWordAfter
    hhit, Option.map_some, (htext.solid htextLine).trim_append_right hpad]
  exact congrArg some (Sorting.orderingOf_of_writes htext htextLine)

/-! ## Sources -/

/-- The characters after a keyword are found up to the end of the phrase. -/
theorem runAfter?_of_located {clause : Clause} {front : List Piece} {later : List Clause}
    {line : List Char} (h : Located clause front later line) {keyword : Keyword} {phrase : Phrase}
    (hrow : clause.row = ⟨[(.word keyword, .gap)], .phrase phrase⟩)
    (hreserved : keyword ∈ reservedWords) (hfront : ∀ piece ∈ front, piece.1 ≠ .word keyword)
    {p : Char → Bool} (hphrase : phrase.chars.all p = true) (hblank : ∀ c, isBlank c → p c = false)
    (hsemicolon : p ';' = false) : runAfter? keyword p line = some phrase.chars := by
  obtain ⟨start, between, tail, hstart, hbetween, htail, rfl⟩ := h.exists_of_phrase hrow
  obtain ⟨hblanks, hne⟩ := Separator.writes_gap_iff.mp hbetween
  have hflush : Flush (phrase.chars ++ tail) := phrase.solid.flush.append phrase.solid.ne_nil tail
  have hrun : (phrase.chars ++ tail).takeWhile p = phrase.chars := by
    obtain ⟨c, rest, rfl, hc⟩ := htail.exists_cons
    have hstop : p c = false := by
      rcases hc with hc | rfl
      · exact hblank c hc
      · exact hsemicolon
    rw [List.takeWhile_append_of_pos (List.all_eq_true.mp hphrase),
      List.takeWhile_cons_of_neg (by simp [hstop]), List.append_nil]
  have hspaced : afterSpaced? keyword (keyword.letters ++ (between ++ (phrase.chars ++ tail))) =
      some (phrase.chars ++ tail) := by
    rw [afterSpaced?, after?_self, Option.bind_some, hblanks.afterBlanks?_append hne hflush]
  rw [runAfter?]
  refine search?_append (fun cs hcs => ?_) (hstart.seals hreserved hfront) ?_
  · have hnone : after? keyword cs = none := hcs
    simp [afterSpaced?, hnone]
  · rw [hspaced, Option.bind_some, hrun, if_neg (by simp [phrase.solid.ne_nil])]

/-- A keyword with a phrase after it is a word of the line. -/
theorem hasWord_of_located {clause : Clause} {front : List Piece} {later : List Clause}
    {line : List Char} (h : Located clause front later line) {keyword : Keyword} {phrase : Phrase}
    (hrow : clause.row = ⟨[(.word keyword, .gap)], .phrase phrase⟩)
    (hreserved : keyword ∈ reservedWords) (hfront : ∀ piece ∈ front, piece.1 ≠ .word keyword) :
    hasWord keyword line = true := by
  obtain ⟨start, between, tail, hstart, hbetween, -, rfl⟩ := h.exists_of_phrase hrow
  exact hasWord_append (hstart.seals hreserved hfront) hstart.startsWordAfter
    (hbetween.startsWord_append _)

theorem isPathChar_of_isBlank {c : Char} (h : isBlank c = true) : isPathChar c = false := by
  have hne : ∀ d, isBlank d = false → c ≠ d := by
    rintro d hd rfl
    rw [h] at hd
    exact Bool.false_ne_true hd.symm
  simp [isPathChar, isWord_of_isBlank h, hne '.' (by decide), hne '/' (by decide),
    hne '\\' (by decide), hne ':' (by decide)]

/-- A path is not taken for a source in brackets. -/
theorem hasBracketedSource_of_path {path : Path} {front : List Piece} {later : List Clause}
    {line : List Char} (h : Located (.source (.file path)) front later line)
    (hfront : ∀ piece ∈ front, piece.1 ≠ .word .fromSource)
    (hlater : ∀ clause ∈ later, clause.row.Omits .fromSource) :
    hasBracketedSource line = false := by
  obtain ⟨start, between, tail, hstart, hbetween, htail, rfl⟩ := h.exists_of_phrase rfl
  obtain ⟨hblanks, hne⟩ := Separator.writes_gap_iff.mp hbetween
  have hreserved : Keyword.fromSource ∈ reservedWords := by decide
  have hflush : Flush (path.chars ++ tail) := path.solid.flush.append path.solid.ne_nil tail
  have hbracket : ['['].isPrefixOf? (path.chars ++ tail) = none := by
    obtain ⟨c, chars, hchars⟩ := List.exists_cons_of_ne_nil path.solid.ne_nil
    have hpath := List.all_eq_true.mp path.path c (by rw [hchars]; exact List.mem_cons_self)
    have hc : ¬ '[' = c := by
      rintro rfl
      exact absurd hpath (by decide)
    simp [hchars, List.isPrefixOf?, hc]
  have hnext :
      (afterBlanks? (between ++ (path.chars ++ tail))).bind (['['].isPrefixOf?) = none := by
    rw [hblanks.afterBlanks?_append hne hflush]
    exact hbracket
  have hafter : Lacks Keyword.fromSource.letters (path.chars ++ tail) :=
    htail.lacks_append Keyword.fromSource.capital (path.lacks hreserved)
      (htail.lacks hreserved hlater)
  have hrest : Seals Keyword.fromSource.letters (Keyword.fromSource.letters.tail ++ between) :=
    Keyword.fromSource.capital.seals_append
      (lacks_of_mentions_eq_false
        (fun c hc => Keyword.fromSource.ascii_letters c (List.mem_of_mem_tail hc)) (by decide))
      hbetween.ne_nil hbetween.wordless
  rw [hasBracketedSource, searchWord?_append_eq_none (hstart.seals hreserved hfront) hnext
    (by rw [← List.append_assoc]; exact hrest.lacks_append hafter)]
  rfl

/-- The source of a load is found as it was written. -/
theorem readOrigin_of_located {source : Source} {front : List Piece} {later : List Clause}
    {line : List Char} (h : Located (.source source) front later line)
    (hfront : ∀ keyword ∈ [Keyword.fromSource, .resident], ∀ piece ∈ front, piece.1 ≠ .word keyword)
    (hlater : ∀ clause ∈ later, clause.row.Omits .fromSource) :
    readOrigin line = ⟨source.kind, some source.text, none⟩ := by
  have hfrom := hfront .fromSource (by decide)
  have hresident := hfront .resident (by decide)
  cases source with
  | file path =>
      have hrun := runAfter?_of_located h rfl (by decide) hfrom path.path
        (fun _ => isPathChar_of_isBlank) (by decide)
      rw [readOrigin, hasBracketedSource_of_path h hfrom hlater,
        hasWord_of_located h rfl (by decide) hfrom, hrun]
      rfl
  | table name =>
      have hrun := runAfter?_of_located h rfl (by decide) hresident name.word
        (fun _ => isWord_of_isBlank) (by decide)
      have hlacks : Lacks Keyword.fromSource.letters line := by
        apply h.lacks (by decide) hfrom
        intro other hother
        rcases List.mem_cons.mp hother with rfl | hmem
        · exact Clause.omits_row (by decide) (by simp [Clause.keyword])
        · exact hlater other hmem
      have hbracketed : hasBracketedSource line = false := by
        rw [hasBracketedSource, searchWord?_eq_none hlacks]
        rfl
      rw [readOrigin, hbracketed, hasWord_eq_false hlacks,
        hasWord_of_located h rfl (by decide) hresident, hrun]
      rfl

end QlikMigration.Script
