import QlikMigration.Proofs.MeasureFilters

/-!
# How much of a formula is converted

A formula ought to be one aggregation and nothing else. It is read from its
start, and the reading ends with the parenthesis that closes the aggregation.
`formulaRun_of_convert` says what follows from that: a formula is converted
exactly if it begins with an aggregation whose function is supported and whose
fields are in the schema, and whatever stands behind the aggregation is left
out without an error.

Inside a set expression parts are left out as well. What stands between two
commas is read only as far as it begins with a filter, so a piece that is no
filter counts for nothing, and so does what stands behind a filter.
-/

namespace QlikMigration.Dax

open QlikMigration.Text QlikMigration.Script

/-! ## Where a part ends -/

/-- A word ends where the word characters end. -/
theorem word_append_inj {word word' rest rest' : List Char} (hword : word.all isWord = true)
    (hword' : word'.all isWord = true) (hrest : startsWord rest = false)
    (hrest' : startsWord rest' = false) (h : word ++ rest = word' ++ rest') :
    word = word' ∧ rest = rest' := by
  obtain ⟨hrun, hafter⟩ := wordRun_append hword hrest
  obtain ⟨hrun', hafter'⟩ := wordRun_append hword' hrest'
  exact ⟨by rw [← hrun, h, hrun'], by rw [← hafter, h, hafter']⟩

/-- White space ends where something else begins. -/
theorem blanks_append_inj {gap gap' rest rest' : List Char} (hgap : Blanks gap)
    (hgap' : Blanks gap') (hrest : Flush rest) (hrest' : Flush rest')
    (h : gap ++ rest = gap' ++ rest') : gap = gap' ∧ rest = rest' := by
  constructor
  · rw [← hgap.takeWhile_append hrest, h, hgap'.takeWhile_append hrest']
  · rw [← hgap.dropWhile_append hrest, h, hgap'.dropWhile_append hrest']

/-- A text without a mark ends where the mark stands. -/
theorem mark_append_inj {mark : Char} {cs cs' rest rest' : List Char} (hcs : mark ∉ cs)
    (hcs' : mark ∉ cs') (h : cs ++ mark :: rest = cs' ++ mark :: rest') :
    cs = cs' ∧ rest = rest' := by
  obtain ⟨htake, hdrop⟩ := cut_at_mark hcs rest
  obtain ⟨htake', hdrop'⟩ := cut_at_mark hcs' rest'
  refine ⟨by rw [← htake, h, htake'], ?_⟩
  rw [h, hdrop'] at hdrop
  exact (List.cons.inj hdrop).2.symm

theorem flush_cons {c : Char} (hc : isBlank c = false) (rest : List Char) : Flush (c :: rest) := by
  intro d hd
  obtain rfl : c = d := by simpa using hd
  exact hc

theorem exists_blanks_skipBlanks (cs : List Char) :
    ∃ gap, Blanks gap ∧ cs = gap ++ skipBlanks cs :=
  ⟨cs.takeWhile isBlank, fun _ hc => List.mem_takeWhile_imp hc,
    List.takeWhile_append_dropWhile.symm⟩

/-- The name of a function or a field. -/
@[ext]
structure Name where
  chars : List Char
  ne_nil : chars ≠ []
  word : chars.all isWord = true

namespace Name

variable (name : Name)

theorem startsWord_append (rest : List Char) : startsWord (name.chars ++ rest) = true :=
  startsWord_word_append name.ne_nil (List.all_eq_true.mp name.word) rest

theorem flush_append (rest : List Char) : Flush (name.chars ++ rest) := by
  intro c hc
  rw [List.head?_append_of_ne_nil _ name.ne_nil] at hc
  exact isBlank_of_isWord (List.all_eq_true.mp name.word c (List.mem_of_mem_head? hc))

/-- The word at the start of a text. -/
theorem exists_of_startsWord {cs : List Char} (h : startsWord cs = true) :
    ∃ name : Name, name.chars = wordRun cs := by
  cases cs with
  | nil => cases h
  | cons c cs =>
      refine ⟨⟨wordRun (c :: cs), ?_, ?_⟩, rfl⟩
      · have hc : isWord c = true := h
        rw [wordRun, List.takeWhile_cons_of_pos hc]
        exact List.cons_ne_nil _ _
      · exact List.all_eq_true.mpr fun d hd => List.mem_takeWhile_imp hd

end Name

/-! ## Filters at the start of a piece -/

/-- A filter as it is read: a field and what stands between the braces. -/
structure FilterText where
  field : Name
  values : List Char
  ne_nil : values ≠ []
  unclosed : '}' ∉ values

/-- The filter as it is written. -/
def FilterText.text (filter : FilterText) : List Char :=
  filter.field.chars ++ '=' :: '{' :: (filter.values ++ ['}'])

/-- The filter as it is understood. -/
def FilterText.entry (filter : FilterText) : String × List String :=
  (String.ofList filter.field.chars, (List.splitOn ',' filter.values).map filterValue)

theorem readFilter?_text_append (filter : FilterText) (rest : List Char) :
    readFilter? (filter.text ++ rest) = some filter.entry := by
  have htext : filter.text ++ rest =
      filter.field.chars ++ '=' :: '{' :: (filter.values ++ '}' :: rest) := by
    simp [FilterText.text]
  have hstop : startsWord ('=' :: '{' :: (filter.values ++ '}' :: rest)) = false := rfl
  obtain ⟨hrun, hafter⟩ := wordRun_append filter.field.word hstop
  obtain ⟨htake, hdrop⟩ := cut_at_mark filter.unclosed rest
  have hclosed : ['}'].isPrefixOf ('}' :: rest) = true := rfl
  rw [htext, readFilter?, filter.field.startsWord_append, hrun, hafter]
  simp only [List.isPrefixOf?, beq_self_eq_true, if_true, Option.bind_eq_bind, Option.bind_some,
    htake, hdrop, hclosed,
    List.isEmpty_eq_false_iff.mpr filter.ne_nil, Bool.not_false, Bool.and_true, FilterText.entry]

/-- A piece is read exactly if it begins with a filter. -/
theorem readFilter?_eq_some_iff {piece : List Char} {entry : String × List String} :
    readFilter? piece = some entry ↔
      ∃ (filter : FilterText) (rest : List Char),
        piece = filter.text ++ rest ∧ filter.entry = entry := by
  constructor
  · intro h
    obtain ⟨body, hbody, h⟩ := Option.bind_eq_some_iff.mp h
    simp only at h
    split at h
    · next hread =>
        simp only [Bool.and_eq_true, Bool.not_eq_true', List.isEmpty_eq_false_iff] at hread
        obtain ⟨⟨hstarts, hne⟩, hends⟩ := hread
        obtain ⟨field, hfield⟩ := Name.exists_of_startsWord hstarts
        obtain ⟨rest, hrest⟩ := List.isPrefixOf_iff_prefix.mp hends
        have hunclosed : '}' ∉ body.takeWhile (· != '}') :=
          fun hmem => absurd (List.mem_takeWhile_imp hmem) (by simp)
        refine ⟨⟨field, body.takeWhile (· != '}'), hne, hunclosed⟩, rest, ?_, ?_⟩
        · have hcut : body.takeWhile (· != '}') ++ '}' :: rest = body := by
            rw [List.singleton_append] at hrest
            rw [hrest, List.takeWhile_append_dropWhile]
          have hafter := (List.append_eq_of_isPrefixOf?_eq_some hbody).symm
          have hpiece := wordRun_append_afterWordRun piece
          rw [hafter, ← hcut, ← hfield] at hpiece
          rw [← hpiece]
          simp [FilterText.text]
        · rw [← Option.some.inj h, FilterText.entry, hfield]
    · cases h
  · rintro ⟨filter, rest, rfl, rfl⟩
    exact readFilter?_text_append filter rest

/-! ## Aggregations at the start of a formula -/

/-- A set expression with the white space behind it. -/
@[ext]
structure SetPart where
  body : List Char
  gap : List Char
  ne_nil : body ≠ []
  unclosed : '>' ∉ body
  blanks : Blanks gap

/-- The set expression as it is written. -/
def SetPart.text (set : SetPart) : List Char :=
  '{' :: '<' :: (set.body ++ '>' :: '}' :: set.gap)

/-- An aggregation as it may be written, with white space after the opening parenthesis and
before the closing one. -/
@[ext]
structure Aggregation where
  function : Name
  lead : List Char
  set : Option SetPart
  field : Name
  trail : List Char
  lead_blanks : Blanks lead
  trail_blanks : Blanks trail

namespace Aggregation

variable (call : Aggregation)

/-- The field and the parenthesis behind it. -/
def closing : List Char :=
  call.field.chars ++ (call.trail ++ [')'])

/-- What stands after the opening parenthesis, white space apart. -/
def inner : List Char :=
  (call.set.map SetPart.text).getD [] ++ call.closing

/-- The aggregation as it is written. -/
def text : List Char :=
  call.function.chars ++ '(' :: (call.lead ++ call.inner)

/-- The aggregation as it is understood. -/
def measure : Measure :=
  ⟨String.ofList call.function.chars, call.set.map fun set => String.ofList set.body,
    String.ofList call.field.chars⟩

theorem closing_append (rest : List Char) :
    call.closing ++ rest = call.field.chars ++ (call.trail ++ ')' :: rest) := by
  simp [closing]

theorem startsWord_trail_append (rest : List Char) :
    startsWord (call.trail ++ ')' :: rest) = false := by
  cases htrail : call.trail with
  | nil => rfl
  | cons c trail =>
      exact isWord_of_isBlank (call.trail_blanks c (htrail ▸ List.mem_cons_self))

theorem closingField?_closing_append (rest : List Char) :
    closingField? (call.closing ++ rest) = some call.field.chars := by
  obtain ⟨hrun, hafter⟩ := wordRun_append call.field.word (call.startsWord_trail_append rest)
  have hskip : skipBlanks (call.trail ++ ')' :: rest) = ')' :: rest :=
    call.trail_blanks.skipBlanks_append (flush_cons (by decide) rest)
  rw [closing_append, closingField?, call.field.startsWord_append, hrun, hafter, hskip]
  rfl

theorem flush_closing_append (rest : List Char) : Flush (call.closing ++ rest) :=
  call.closing_append rest ▸ call.field.flush_append _

theorem flush_inner_append (rest : List Char) : Flush (call.inner ++ rest) := by
  rw [inner]
  cases call.set with
  | none => exact call.flush_closing_append rest
  | some set => exact flush_cons (by decide) _

end Aggregation

theorem closingField?_eq_some {cs field : List Char} (h : closingField? cs = some field) :
    ∃ (name : Name) (trail rest : List Char), name.chars = field ∧ Blanks trail ∧
      cs = name.chars ++ (trail ++ ')' :: rest) := by
  unfold closingField? at h
  split at h
  · next hread =>
      rw [Bool.and_eq_true] at hread
      obtain ⟨name, hname⟩ := Name.exists_of_startsWord hread.1
      obtain ⟨rest, hrest⟩ := List.isPrefixOf_iff_prefix.mp hread.2
      obtain ⟨trail, htrail, hafter⟩ := exists_blanks_skipBlanks (afterWordRun cs)
      refine ⟨name, trail, rest, hname.trans (Option.some.inj h), htrail, ?_⟩
      rw [List.singleton_append] at hrest
      rw [hrest, ← hafter, hname, wordRun_append_afterWordRun]
  · cases h

theorem setExpression?_text_append (set : SetPart) {rest : List Char} (hrest : Flush rest) :
    setExpression? (set.text ++ rest) = some (set.body, rest) := by
  obtain ⟨htake, hdrop⟩ := cut_at_mark set.unclosed ('}' :: (set.gap ++ rest))
  have hskip : skipBlanks (set.gap ++ rest) = rest := set.blanks.skipBlanks_append hrest
  have htext : set.text ++ rest = '{' :: '<' :: (set.body ++ '>' :: '}' :: (set.gap ++ rest)) := by
    simp [SetPart.text]
  rw [htext, setExpression?]
  simp only [List.isPrefixOf?, beq_self_eq_true, if_true, Option.bind_eq_bind, Option.bind_some,
    htake, hdrop, hskip,    List.isEmpty_iff, set.ne_nil, if_false]

theorem setExpression?_eq_some {cs body rest : List Char}
    (h : setExpression? cs = some (body, rest)) :
    ∃ set : SetPart, set.body = body ∧ cs = set.text ++ rest := by
  obtain ⟨tail, htail, h⟩ := Option.bind_eq_some_iff.mp h
  obtain ⟨behind, hbehind, h⟩ := Option.bind_eq_some_iff.mp h
  split at h
  · cases h
  · next hne =>
      obtain ⟨rfl, rfl⟩ := Prod.mk.inj (Option.some.inj h)
      obtain ⟨gap, hgap, hskip⟩ := exists_blanks_skipBlanks behind
      have hunclosed : '>' ∉ tail.takeWhile (· != '>') :=
        fun hmem => absurd (List.mem_takeWhile_imp hmem) (by simp)
      have htail' : tail =
          tail.takeWhile (· != '>') ++ '>' :: '}' :: (gap ++ skipBlanks behind) := by
        have hdrop := (List.append_eq_of_isPrefixOf?_eq_some hbehind).symm
        rw [hskip] at hdrop
        exact (List.takeWhile_append_dropWhile.symm.trans (congrArg _ hdrop))
      refine ⟨⟨_, gap, mt List.isEmpty_iff.mpr hne, hunclosed, hgap⟩, rfl, ?_⟩
      rw [SetPart.text, List.cons_append, List.cons_append, List.append_assoc, List.cons_append,
        List.cons_append, ← htail']
      exact (List.append_eq_of_isPrefixOf?_eq_some htail).symm

/-- Behind a word no set expression begins. -/
theorem setExpression?_name_append (name : Name) (rest : List Char) :
    setExpression? (name.chars ++ rest) = none := by
  obtain ⟨c, cs, hchars⟩ := List.exists_cons_of_ne_nil name.ne_nil
  have hc : '{' ≠ c := by
    rintro rfl
    exact absurd (List.all_eq_true.mp name.word '{' (hchars ▸ List.mem_cons_self)) (by decide)
  rw [hchars, setExpression?]
  simp [List.isPrefixOf?, hc]

/-- An aggregation is read at the start of a formula, whatever follows. -/
theorem readMeasure?_text_append (call : Aggregation) (rest : List Char) :
    readMeasure? (call.text ++ rest) = some call.measure := by
  have htext : call.text ++ rest =
      call.function.chars ++ '(' :: (call.lead ++ (call.inner ++ rest)) := by
    simp [Aggregation.text]
  have hstop : startsWord ('(' :: (call.lead ++ (call.inner ++ rest))) = false := rfl
  obtain ⟨hrun, hafter⟩ := wordRun_append call.function.word hstop
  have hskip : skipBlanks (call.lead ++ (call.inner ++ rest)) = call.inner ++ rest :=
    call.lead_blanks.skipBlanks_append (call.flush_inner_append rest)
  rw [htext, readMeasure?, call.function.startsWord_append, hrun, hafter]
  simp only [List.isPrefixOf?, beq_self_eq_true, if_true, Option.bind_eq_bind, Option.bind_some,
    hskip]
  cases hset : call.set with
  | none =>
      have hinner : call.inner ++ rest = call.closing ++ rest := by simp [Aggregation.inner, hset]
      have hnone : setExpression? (call.closing ++ rest) = none := by
        rw [call.closing_append, setExpression?_name_append]
      simp [hinner, hnone, call.closingField?_closing_append, Aggregation.measure, hset]
  | some set =>
      have hinner : call.inner ++ rest = set.text ++ (call.closing ++ rest) := by
        simp [Aggregation.inner, hset]
      simp [hinner, setExpression?_text_append set (call.flush_closing_append rest),
        call.closingField?_closing_append, Aggregation.measure, hset]

/-- What is read is an aggregation at the start of the formula. -/
theorem exists_aggregation_of_readMeasure? {cs : List Char} {measure : Measure}
    (h : readMeasure? cs = some measure) :
    ∃ (call : Aggregation) (rest : List Char), cs = call.text ++ rest := by
  obtain ⟨body, hbody, h⟩ := Option.bind_eq_some_iff.mp h
  simp only at h
  split at h
  case isFalse => cases h
  case isTrue hstarts =>
    obtain ⟨function, hfunction⟩ := Name.exists_of_startsWord hstarts
    obtain ⟨lead, hlead, hinner⟩ := exists_blanks_skipBlanks body
    have hcs : cs = function.chars ++ '(' :: (lead ++ skipBlanks body) := by
      have hafter := (List.append_eq_of_isPrefixOf?_eq_some hbody).symm
      rw [List.singleton_append] at hafter
      rw [← hinner, ← hafter, hfunction, wordRun_append_afterWordRun]
    split at h
    · next filters behind hset =>
        obtain ⟨field, hfield, -⟩ := Option.bind_eq_some_iff.mp h
        obtain ⟨set, -, hskip⟩ := setExpression?_eq_some hset
        obtain ⟨name, trail, rest, -, htrail, hbehind⟩ := closingField?_eq_some hfield
        refine ⟨⟨function, lead, some set, name, trail, hlead, htrail⟩, rest, ?_⟩
        rw [hcs, hskip, hbehind]
        simp [Aggregation.text, Aggregation.inner, Aggregation.closing]
    · obtain ⟨field, hfield, -⟩ := Option.bind_eq_some_iff.mp h
      obtain ⟨name, trail, rest, -, htrail, hskip⟩ := closingField?_eq_some hfield
      refine ⟨⟨function, lead, none, name, trail, hlead, htrail⟩, rest, ?_⟩
      rw [hcs, hskip]
      simp [Aggregation.text, Aggregation.inner, Aggregation.closing]

/-! ## The end of an aggregation -/

namespace Aggregation

variable {call other : Aggregation} {rest rest' : List Char}

theorem closing_append_inj (h : call.closing ++ rest = other.closing ++ rest') :
    call.field = other.field ∧ call.trail = other.trail ∧ rest = rest' := by
  rw [closing_append, closing_append] at h
  obtain ⟨hfield, h⟩ := word_append_inj call.field.word other.field.word
    (call.startsWord_trail_append rest) (other.startsWord_trail_append rest') h
  obtain ⟨htrail, h⟩ := blanks_append_inj call.trail_blanks other.trail_blanks
    (flush_cons (by decide) rest) (flush_cons (by decide) rest') h
  exact ⟨Name.ext hfield, htrail, (List.cons.inj h).2⟩

/-- A set expression begins with a brace and a field with a word character. -/
theorem closing_append_ne (set : SetPart) : call.closing ++ rest ≠ set.text ++ rest' := by
  intro h
  have hword := call.field.startsWord_append (call.trail ++ ')' :: rest)
  rw [← call.closing_append, h] at hword
  exact absurd hword Bool.false_ne_true

theorem inner_append_inj (h : call.inner ++ rest = other.inner ++ rest') :
    call.set = other.set ∧ call.field = other.field ∧ call.trail = other.trail ∧ rest = rest' := by
  rw [inner, inner] at h
  cases hset : call.set with
  | none =>
      cases hother : other.set with
      | none =>
          rw [hset, hother] at h
          exact ⟨rfl, closing_append_inj h⟩
      | some set =>
          rw [hset, hother, Option.map_some, Option.getD_some, List.append_assoc _ _ rest'] at h
          exact absurd h (closing_append_ne set)
  | some set =>
      cases hother : other.set with
      | none =>
          rw [hset, hother, Option.map_some, Option.getD_some, List.append_assoc _ _ rest] at h
          exact absurd h.symm (closing_append_ne set)
      | some otherSet =>
          simp only [hset, hother, Option.map_some, Option.getD_some, SetPart.text,
            List.cons_append, List.append_assoc, List.cons.injEq, true_and] at h
          obtain ⟨hbody, h⟩ := mark_append_inj set.unclosed otherSet.unclosed h
          obtain ⟨hgap, h⟩ := blanks_append_inj set.blanks otherSet.blanks
            (call.flush_closing_append rest) (other.flush_closing_append rest') (List.cons.inj h).2
          exact ⟨congrArg some (SetPart.ext hbody hgap), closing_append_inj h⟩

/-- A formula begins with one aggregation at most, so what is left over is determined. -/
theorem text_append_inj (h : call.text ++ rest = other.text ++ rest') :
    call = other ∧ rest = rest' := by
  rw [text, text, List.append_assoc, List.append_assoc, List.cons_append, List.cons_append] at h
  obtain ⟨hfunction, h⟩ := word_append_inj call.function.word other.function.word rfl rfl h
  rw [List.cons.injEq, List.append_assoc, List.append_assoc] at h
  obtain ⟨hlead, h⟩ := blanks_append_inj call.lead_blanks other.lead_blanks
    (call.flush_inner_append rest) (other.flush_inner_append rest') h.2
  obtain ⟨hset, hfield, htrail, hrest⟩ := inner_append_inj h
  exact ⟨Aggregation.ext (Name.ext hfunction) hlead hset hfield htrail, hrest⟩

variable (call : Aggregation)

theorem text_ne_nil : call.text ≠ [] := by
  simp [text]

/-- No white space stands around an aggregation. -/
theorem trim_text : trim call.text = call.text := by
  have hform : call.text = call.function.chars ++
      ('(' :: (call.lead ++ ((call.set.map SetPart.text).getD [] ++
        (call.field.chars ++ call.trail)))) ++ [')'] := by
    simp [text, inner, closing]
  rw [hform, trim_append_singleton (by decide), skipBlanks,
    (call.function.flush_append _).dropWhile_isBlank]

/-! ## What is converted -/

/-- What stands between the commas of the set expression, without white space around it. -/
def pieces : List (List Char) :=
  match call.set with
  | none => []
  | some set => (List.splitOn ',' set.body).map trim

/-- Every piece of the set expression is a filter. -/
def Listed : Prop :=
  ∀ piece ∈ call.pieces, ∃ filter : FilterText, piece = filter.text

/-- The function is supported, and the field and the fields of all filters with which pieces
begin are in the schema. -/
structure Supported (schema : Schema) : Prop where
  function : (function? (String.ofList call.function.chars)).isSome = true
  field : (table? schema (String.ofList call.field.chars)).isSome = true
  filters : ∀ piece ∈ call.pieces, ∀ (filter : FilterText) (rest : List Char),
    piece = filter.text ++ rest →
      (table? schema (String.ofList filter.field.chars)).isSome = true

end Aggregation

/-- A measure is converted exactly if its function is supported and its fields are in the
schema. -/
theorem Measure.exists_formula_iff (measure : Measure) (schema : Schema) :
    (∃ dax, measure.formula schema = .ok dax) ↔
      (function? measure.function).isSome = true ∧
        (table? schema measure.field).isSome = true ∧
        ∀ filters ∈ measure.filters, ∀ entry ∈ (readFilters filters).entries,
          (table? schema entry.1).isSome = true := by
  unfold Measure.formula
  cases function? measure.function with
  | none => simp
  | some function =>
      cases table? schema measure.field with
      | none => simp
      | some table =>
          cases measure.filters with
          | none => simp
          | some filters =>
              have hconditions := @conditions_eq_ok_iff schema (readFilters filters).entries
              show (∃ dax, (conditions schema (readFilters filters).entries).map _ = .ok dax) ↔ _
              cases hresult : conditions schema (readFilters filters).entries with
              | error cause =>
                  have hunknown : ¬ ∀ entry ∈ (readFilters filters).entries,
                      (table? schema entry.1).isSome = true := by
                    intro hall
                    rw [hconditions.mpr ⟨hall, rfl⟩] at hresult
                    cases hresult
                  exact ⟨nofun, fun h => absurd (h.2.2 filters rfl) hunknown⟩
              | ok texts =>
                  have hall := (hconditions.mp hresult).1
                  exact ⟨fun _ => ⟨rfl, rfl, fun _ hmem => Option.some.inj hmem ▸ hall⟩,
                    fun _ => ⟨_, rfl⟩⟩

namespace Aggregation

variable (call : Aggregation)

theorem readFilters_body (set : SetPart) :
    readFilters (String.ofList set.body) =
      Catalog.ofList (((List.splitOn ',' set.body).map trim).filterMap readFilter?) := by
  rw [readFilters, String.toList_ofList, List.filterMap_map]
  rfl

/-- The fields of a set expression's filters are in the schema exactly if those are with which
its pieces begin. -/
theorem forall_readFilters_iff {set : SetPart} (hset : call.set = some set) (schema : Schema) :
    (∀ entry ∈ (readFilters (String.ofList set.body)).entries,
        (table? schema entry.1).isSome = true) ↔
      ∀ piece ∈ call.pieces, ∀ (filter : FilterText) (rest : List Char),
        piece = filter.text ++ rest →
          (table? schema (String.ofList filter.field.chars)).isSome = true := by
  have hpieces : call.pieces = (List.splitOn ',' set.body).map trim := by rw [pieces, hset]
  rw [readFilters_body, ← hpieces]
  constructor
  · intro hall piece hpiece filter rest hread
    -- The filter may be replaced by a later one, but its field stays among the names.
    have hentry : filter.entry ∈ call.pieces.filterMap readFilter? :=
      List.mem_filterMap.mpr ⟨piece, hpiece, readFilter?_eq_some_iff.mpr ⟨filter, rest, hread, rfl⟩⟩
    have hname : filter.entry.1 ∈ (Catalog.ofList (call.pieces.filterMap readFilter?)).names := by
      rw [Catalog.names_ofList, List.mem_eraseDups]
      exact List.mem_map_of_mem hentry
    obtain ⟨entry, hmem, heq⟩ := List.mem_map.mp hname
    have hknown := hall entry hmem
    rwa [heq] at hknown
  · intro hall entry hentry
    obtain ⟨piece, hpiece, hread⟩ := List.mem_filterMap.mp (Catalog.mem_of_mem_ofList hentry)
    obtain ⟨filter, rest, hbegins, rfl⟩ := readFilter?_eq_some_iff.mp hread
    exact hall piece hpiece filter rest hbegins

/-- An aggregation is converted exactly if it is supported. -/
theorem exists_formula_iff (schema : Schema) :
    (∃ dax, call.measure.formula schema = .ok dax) ↔ call.Supported schema := by
  rw [call.measure.exists_formula_iff]
  constructor
  · rintro ⟨hfunction, hfield, hfilters⟩
    refine ⟨hfunction, hfield, ?_⟩
    cases hset : call.set with
    | none =>
        intro piece hpiece
        rw [pieces, hset] at hpiece
        cases hpiece
    | some set =>
        refine (call.forall_readFilters_iff hset schema).mp (hfilters _ ?_)
        rw [measure, hset]
        rfl
  · rintro ⟨hfunction, hfield, hfilters⟩
    refine ⟨hfunction, hfield, fun filters hmem => ?_⟩
    obtain ⟨set, hset, rfl⟩ := Option.map_eq_some_iff.mp hmem
    exact (call.forall_readFilters_iff hset schema).mpr hfilters

/-- An aggregation alone is converted as it is understood. -/
theorem convert_text (schema : Schema) :
    convert schema (String.ofList call.text) = call.measure.formula schema := by
  have hread := readMeasure?_text_append call []
  rw [List.append_nil] at hread
  rw [convert, String.toList_ofList, call.trim_text, hread,
    List.isEmpty_eq_false_iff.mpr call.text_ne_nil]
  rfl

end Aggregation

/-- What becomes of a formula that has no white space around it. -/
structure FormulaRun (schema : Schema) (formula : List Char) (result : Except DaxError String) :
    Prop where
  /-- What begins with an aggregation is converted like the aggregation alone. -/
  begun : ∀ (call : Aggregation) (rest : List Char), formula = call.text ++ rest →
    result = convert schema (String.ofList call.text)
  /-- Anything else is an error. -/
  other : (∀ (call : Aggregation) (rest : List Char), formula ≠ call.text ++ rest) →
    result = .error (if formula = [] then .emptyFormula else .invalidSyntax)
  /-- It is converted exactly if it begins with an aggregation that is supported. -/
  converted_iff : (∃ dax, result = .ok dax) ↔
    ∃ (call : Aggregation) (rest : List Char), formula = call.text ++ rest ∧ call.Supported schema
  /-- That it is converted only if it is an aggregation as a whole holds exactly if nothing
  follows a supported aggregation. -/
  whole_iff : ((∃ dax, result = .ok dax) → ∃ call : Aggregation, formula = call.text) ↔
    ∀ (call : Aggregation) (rest : List Char), formula = call.text ++ rest →
      call.Supported schema → rest = []
  /-- That it is converted only if it is an aggregation with a list of filters holds exactly if,
  besides, every piece of the set expression is a filter. -/
  listed_iff : ((∃ dax, result = .ok dax) →
      ∃ call : Aggregation, formula = call.text ∧ call.Listed) ↔
    ∀ (call : Aggregation) (rest : List Char), formula = call.text ++ rest →
      call.Supported schema → rest = [] ∧ call.Listed

theorem formulaRun_of_begun (schema : Schema) (call : Aggregation) (rest : List Char) :
    FormulaRun schema (call.text ++ rest) (call.measure.formula schema) := by
  have hconverted := call.exists_formula_iff schema
  constructor
  · intro other rest' h
    obtain ⟨rfl, -⟩ := Aggregation.text_append_inj h
    exact (call.convert_text schema).symm
  · intro hnone
    exact absurd rfl (hnone call rest)
  · rw [hconverted]
    constructor
    · exact fun hsupported => ⟨call, rest, rfl, hsupported⟩
    · rintro ⟨other, rest', h, hsupported⟩
      obtain ⟨rfl, -⟩ := Aggregation.text_append_inj h
      exact hsupported
  · rw [hconverted]
    constructor
    · intro hwhole other rest' h hsupported
      obtain ⟨rfl, rfl⟩ := Aggregation.text_append_inj h
      obtain ⟨whole, htext⟩ := hwhole hsupported
      exact (Aggregation.text_append_inj (htext.trans (List.append_nil _).symm)).2
    · intro hrest hsupported
      exact ⟨call, by rw [hrest call rest rfl hsupported, List.append_nil]⟩
  · rw [hconverted]
    constructor
    · intro hlisted other rest' h hsupported
      obtain ⟨rfl, rfl⟩ := Aggregation.text_append_inj h
      obtain ⟨whole, htext, hpieces⟩ := hlisted hsupported
      obtain ⟨rfl, hrest⟩ := Aggregation.text_append_inj (htext.trans (List.append_nil _).symm)
      exact ⟨hrest, hpieces⟩
    · intro hrest hsupported
      obtain ⟨rfl, hpieces⟩ := hrest call rest rfl hsupported
      exact ⟨call, List.append_nil _, hpieces⟩

theorem formulaRun_of_error {schema : Schema} {formula : List Char}
    (hnone : ∀ (call : Aggregation) (rest : List Char), formula ≠ call.text ++ rest) :
    FormulaRun schema formula
      (.error (if formula = [] then .emptyFormula else .invalidSyntax)) where
  begun call rest h := absurd h (hnone call rest)
  other _ := rfl
  converted_iff := ⟨nofun, fun ⟨call, rest, h, _⟩ => absurd h (hnone call rest)⟩
  whole_iff := ⟨fun _ call rest h => absurd h (hnone call rest), fun _ => nofun⟩
  listed_iff := ⟨fun _ call rest h => absurd h (hnone call rest), fun _ => nofun⟩

/-- Whatever stands behind the aggregation at the start of a formula is left out. -/
theorem formulaRun_of_convert (schema : Schema) (formula : String) :
    FormulaRun schema (trim formula.toList) (convert schema formula) := by
  by_cases hbegun : ∃ (call : Aggregation) (rest : List Char),
      trim formula.toList = call.text ++ rest
  · obtain ⟨call, rest, htrim⟩ := hbegun
    have hconvert : convert schema formula = call.measure.formula schema := by
      have hne : call.text ++ rest ≠ [] := by simp [call.text_ne_nil]
      rw [convert, htrim, readMeasure?_text_append, List.isEmpty_eq_false_iff.mpr hne]
      rfl
    rw [htrim, hconvert]
    exact formulaRun_of_begun schema call rest
  · have hnone : ∀ (call : Aggregation) (rest : List Char),
        trim formula.toList ≠ call.text ++ rest :=
      fun call rest h => hbegun ⟨call, rest, h⟩
    have hread : readMeasure? (trim formula.toList) = none := by
      cases hread : readMeasure? (trim formula.toList) with
      | none => rfl
      | some measure => exact absurd (exists_aggregation_of_readMeasure? hread) hbegun
    have hconvert : convert schema formula =
        .error (if trim formula.toList = [] then .emptyFormula else .invalidSyntax) := by
      rw [convert, hread]
      cases trim formula.toList <;> rfl
    rw [hconvert]
    exact formulaRun_of_error hnone

/-- The aggregation `Sum(Sales)`. -/
def salesSum : Aggregation :=
  ⟨⟨['S', 'u', 'm'], List.cons_ne_nil _ _, rfl⟩, [], none,
    ⟨['S', 'a', 'l', 'e', 's'], List.cons_ne_nil _ _, rfl⟩, [], .nil, .nil⟩

/-- Of a quotient the dividend is converted and the divisor is left out. -/
theorem formulaRun_of_quotient :
    convert salesSchema "Sum(Sales) / Count(Sales)" = .ok "SUM(Sales[Sales])" ∧
      ¬ ∃ call : Aggregation, trim "Sum(Sales) / Count(Sales)".toList = call.text := by
  have hrun := formulaRun_of_convert salesSchema "Sum(Sales) / Count(Sales)"
  have htrim : trim "Sum(Sales) / Count(Sales)".toList =
      salesSum.text ++ " / Count(Sales)".toList := by decide
  rw [htrim] at hrun ⊢
  have hconverted : convert salesSchema (String.ofList salesSum.text) =
      .ok "SUM(Sales[Sales])" := by decide
  have hsales : convert salesSchema "Sum(Sales) / Count(Sales)" = .ok "SUM(Sales[Sales])" :=
    (hrun.begun salesSum _ rfl).trans hconverted
  refine ⟨hsales, fun hwhole => ?_⟩
  have hsupported : salesSum.Supported salesSchema :=
    (salesSum.exists_formula_iff salesSchema).mp
      ⟨_, (salesSum.convert_text _).symm.trans hconverted⟩
  exact absurd (hrun.whole_iff.mp (fun _ => hwhole) salesSum _ rfl hsupported) (by decide)

end QlikMigration.Dax
