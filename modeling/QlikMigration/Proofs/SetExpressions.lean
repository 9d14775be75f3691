import QlikMigration.Dax
import QlikMigration.Proofs.InlineRows
import QlikMigration.Proofs.JoinKeys
import QlikMigration.Proofs.Provenance

/-!
# Reading set expressions

A set expression lists filters, and a filter lists values; commas separate both.
The filters are cut at every comma, so a filter of several values falls into
pieces and the brace that closes it ends up in the last of them. A piece is read
only where a word, the opening and the closing stand in it together. So a filter
of one value is read if its field is a word, and a filter of several values is
passed over, unless its last value spells a filter itself. `readFilters_setText`
says so of every set expression.
-/

namespace QlikMigration.Dax

open QlikMigration.Text QlikMigration.Script

/-! ## Texts with an end -/

/-- White space goes from the start of a text up to an end that is none. -/
theorem trim_append_singleton {c : Char} (hc : isBlank c = false) (cs : List Char) :
    trim (cs ++ [c]) = skipBlanks cs ++ [c] :=
  trimOf_append_singleton hc cs

theorem takeWhile_append_cons {p : Char → Bool} {mark : Char} (hmark : p mark = false)
    (cs rest : List Char) : (cs ++ mark :: rest).takeWhile p = cs.takeWhile p := by
  rw [List.takeWhile_append]
  split
  · next hall =>
      rw [List.takeWhile_cons_of_neg (by simp [hmark]), List.append_nil]
      exact ((List.takeWhile_prefix p).eq_of_length hall).symm
  · rfl

/-- A text without a mark is all that stands before the mark behind it. -/
theorem cut_at_mark {mark : Char} {cs : List Char} (h : mark ∉ cs) (rest : List Char) :
    (cs ++ mark :: rest).takeWhile (· != mark) = cs ∧
      (cs ++ mark :: rest).dropWhile (· != mark) = mark :: rest := by
  have hcs : ∀ c ∈ cs, (c != mark) = true :=
    fun c hc => bne_iff_ne.mpr fun heq => h (heq ▸ hc)
  constructor
  · rw [takeWhile_append_cons, List.takeWhile_eq_self_iff.mpr hcs]
    exact bne_self_eq_false mark
  · rw [dropWhile_append_cons, List.dropWhile_eq_nil_iff.mpr hcs, List.nil_append]
    exact bne_self_eq_false mark

/-- Of marks around a text that has none, the text is left. -/
theorem trimOf_enclosed {p : Char → Bool} {c : Char} {cs : List Char} (hc : p c = true)
    (hcs : ∀ d ∈ cs, p d = false) : trimOf p (c :: (cs ++ [c])) = cs := by
  rw [trimOf, trimStartOf, List.dropWhile_cons_of_pos hc]
  cases cs with
  | nil =>
      rw [List.nil_append, List.dropWhile_cons_of_pos hc]
      rfl
  | cons d cs =>
      have hd : p d = false := hcs d List.mem_cons_self
      have hlast : ∀ e ∈ (d :: cs).getLast?, p e = false :=
        fun e he => hcs e (List.mem_of_getLast? he)
      rw [List.cons_append, List.dropWhile_cons_of_neg (by simp [hd]), ← List.cons_append]
      exact trimEndOf_append_of_pos (List.forall_mem_singleton.mpr hc) hlast

/-- Joining texts that are joined with the same separator joins all their pieces. -/
theorem intercalate_map_intercalate (separator : List Char) {groups : List (List (List Char))}
    (hgroups : ∀ group ∈ groups, group ≠ []) :
    separator.intercalate (groups.map (separator.intercalate)) =
      separator.intercalate groups.flatten := by
  induction groups with
  | nil => rfl
  | cons group groups ih =>
      rw [List.forall_mem_cons] at hgroups
      cases groups with
      | nil => simp
      | cons next groups =>
          have hflatten : (next :: groups).flatten ≠ [] := by
            simp [hgroups.2 next List.mem_cons_self]
          rw [List.map_cons, List.intercalate_cons_of_ne_nil (by simp), ih hgroups.2,
            List.flatten_cons (l := group), intercalate_append _ hgroups.1 hflatten,
            List.append_assoc]

/-! ## Filters as they are written -/

/-- Whether a character marks off a field, in a formula or in a condition. -/
def isMark (c : Char) : Bool :=
  [',', '=', '}', '>', ')', '['].contains c

/-- The name of a field. It has no white space around it, but need not be a word. -/
structure FieldName where
  chars : List Char
  ne_nil : chars ≠ []
  trimmed : isTrimmed chars = true
  plain : chars.any isMark = false

/-- Whether a character ends or quotes a value. -/
def endsValue (c : Char) : Bool :=
  [',', '}', '>', '\'', '"'].contains c

/-- What ends a value, a filter or a set expression stands nowhere inside one. -/
theorem of_mem_closers {c : Char} (hc : c ∈ [',', '}', '>']) :
    endsValue c = true ∧ isMark c = true ∧ isBlank c = false ∧ c ≠ '=' ∧ c ≠ '{' ∧ c ≠ '\'' := by
  simp only [List.mem_cons, List.not_mem_nil, or_false] at hc
  rcases hc with rfl | rfl | rfl <;> decide

/-- A value of a filter, which may stand in single quotes. -/
structure FilterValue where
  chars : List Char
  quoted : Bool
  ne_nil : chars ≠ []
  plain : chars.any endsValue = false

namespace FieldName

variable (name : FieldName)

/-- The name as a text. -/
def text : String :=
  String.ofList name.chars

/-- Whether the name is a word. -/
def isWord : Bool :=
  name.chars.all Text.isWord

theorem flush : Flush name.chars :=
  (isTrimmed_iff.mp name.trimmed).1

theorem last : ∀ c ∈ name.chars.getLast?, isBlank c = false :=
  (isTrimmed_iff.mp name.trimmed).2

theorem not_mem {c : Char} (hc : isMark c = true) : c ∉ name.chars :=
  fun hmem => List.any_eq_false.mp name.plain c hmem hc

theorem startsWord_append (hword : name.isWord = true) (rest : List Char) :
    startsWord (name.chars ++ rest) = true :=
  startsWord_word_append name.ne_nil (List.all_eq_true.mp hword) rest

/-- After the first word of a name that is none, the name goes on. -/
theorem exists_afterWordRun (hword : name.isWord = false) (rest : List Char) :
    ∃ c cs, afterWordRun (name.chars ++ rest) = c :: cs ++ rest ∧ c :: cs <:+ name.chars := by
  have hne : name.chars.dropWhile Text.isWord ≠ [] := by
    intro hnil
    rw [List.dropWhile_eq_nil_iff] at hnil
    rw [isWord, List.all_eq_true.mpr hnil] at hword
    cases hword
  obtain ⟨c, cs, hdrop⟩ := List.exists_cons_of_ne_nil hne
  refine ⟨c, cs, ?_, hdrop ▸ List.dropWhile_suffix Text.isWord⟩
  rw [afterWordRun, List.dropWhile_append, if_neg (by simp [hdrop]), hdrop]

theorem isPrefixOf?_afterWordRun_eq_none (hword : name.isWord = false) (rest : List Char) :
    ['=', '{'].isPrefixOf? (afterWordRun (name.chars ++ rest)) = none := by
  obtain ⟨c, cs, hafter, hsuffix⟩ := name.exists_afterWordRun hword rest
  have hc : '=' ≠ c :=
    fun heq => name.not_mem (by decide) (heq ▸ hsuffix.subset List.mem_cons_self)
  simp [hafter, List.isPrefixOf?, hc]

end FieldName

/-- Without quotes only white space is taken away from a value. -/
theorem filterValue_of_unquoted {cs : List Char}
    (h : ∀ c ∈ cs, (c == '\'' || c == '"') = false) : filterValue cs = String.ofList (trim cs) := by
  rw [filterValue, trimOf_eq_self fun c hc => h c ((trim_isInfix cs).subset hc)]

namespace FilterValue

variable (value : FilterValue)

/-- The value as it is written. -/
def written : List Char :=
  if value.quoted then '\'' :: (value.chars ++ ['\'']) else value.chars

/-- What the value stands for. Only in quotes does white space around it count. -/
def meaning : String :=
  String.ofList (if value.quoted then value.chars else trim value.chars)

theorem not_mem {c : Char} (hc : endsValue c = true) : c ∉ value.chars :=
  fun hmem => List.any_eq_false.mp value.plain c hmem hc

theorem not_mem_written {c : Char} (hc : endsValue c = true) (hquote : c ≠ '\'') :
    c ∉ value.written := by
  unfold written
  split
  · simp [hquote, value.not_mem hc]
  · exact value.not_mem hc

theorem written_ne_nil : value.written ≠ [] := by
  unfold written
  split
  · exact List.cons_ne_nil _ _
  · exact value.ne_nil

theorem unquoted {c : Char} (hc : c ∈ value.chars) : (c == '\'' || c == '"') = false := by
  have hsingle : c ≠ '\'' := fun heq => value.not_mem (by decide) (heq ▸ hc)
  have hdouble : c ≠ '"' := fun heq => value.not_mem (by decide) (heq ▸ hc)
  rw [beq_eq_false_iff_ne.mpr hsingle, beq_eq_false_iff_ne.mpr hdouble]
  rfl

theorem filterValue_written : filterValue value.written = value.meaning := by
  unfold written meaning
  split
  · -- The quotes are no white space, and nothing but the quotes is taken away.
    have htrim : trim ('\'' :: (value.chars ++ ['\''])) = '\'' :: (value.chars ++ ['\'']) :=
      trim_append_singleton (by decide) ('\'' :: value.chars)
    rw [filterValue, htrim, trimOf_enclosed (by decide) fun c hc => value.unquoted hc]
  · exact filterValue_of_unquoted fun c hc => value.unquoted hc

end FilterValue

/-! ## The pieces between commas -/

/-- Closes the last of some pieces with a brace. -/
def closeLast : List Char → List (List Char) → List (List Char)
  | piece, [] => [piece ++ ['}']]
  | piece, next :: later => piece :: closeLast next later

theorem closeLast_ne_nil (piece : List Char) (later : List (List Char)) :
    closeLast piece later ≠ [] := by
  cases later <;> simp [closeLast]

theorem intercalate_closeLast (separator piece : List Char) (later : List (List Char)) :
    separator.intercalate (closeLast piece later) =
      separator.intercalate (piece :: later) ++ ['}'] := by
  induction later generalizing piece with
  | nil => simp [closeLast]
  | cons next later ih =>
      rw [closeLast, List.intercalate_cons_of_ne_nil (closeLast_ne_nil next later), ih,
        List.intercalate_cons_cons]
      simp

theorem not_mem_closeLast {c : Char} (hc : c ≠ '}') {piece : List Char} {later : List (List Char)}
    (hpieces : ∀ part ∈ piece :: later, c ∉ part) : ∀ part ∈ closeLast piece later, c ∉ part := by
  induction later generalizing piece with
  | nil => simpa [closeLast, hc] using hpieces
  | cons next later ih =>
      rw [List.forall_mem_cons] at hpieces
      exact List.forall_mem_cons.mpr ⟨hpieces.1, ih hpieces.2⟩

/-! ## Reading one piece -/

/-- The filter that a text is once a brace closes it. -/
def unclosed? (text : List Char) : Option (String × List String) :=
  (['=', '{'].isPrefixOf? (afterWordRun text)).bind fun body =>
    if startsWord text && !body.isEmpty then
      some (String.ofList (wordRun text), [filterValue body])
    else none

theorem suffix_of_opening {text body : List Char}
    (h : ['=', '{'].isPrefixOf? (afterWordRun text) = some body) : body <:+ text := by
  have hafter := List.append_eq_of_isPrefixOf?_eq_some h
  exact (hafter ▸ List.suffix_append ['=', '{'] body).trans (List.dropWhile_suffix isWord)

/-- Without a closing brace there is no filter. -/
theorem readFilter?_eq_none {text : List Char} (h : '}' ∉ text) : readFilter? text = none := by
  unfold readFilter?
  cases hbody : ['=', '{'].isPrefixOf? (afterWordRun text) with
  | none => rfl
  | some body =>
      have hdrop : body.dropWhile (· != '}') = [] := by
        rw [List.dropWhile_eq_nil_iff]
        intro c hc
        exact bne_iff_ne.mpr fun heq => h ((suffix_of_opening hbody).subset (heq ▸ hc))
      simp [hdrop]

theorem isPrefixOf?_opening_append_brace (text : List Char) :
    ['=', '{'].isPrefixOf? (text ++ ['}']) = (['=', '{'].isPrefixOf? text).map (· ++ ['}']) := by
  match text with
  | [] => rfl
  | [c] => by_cases hc : '=' = c <;> simp [List.isPrefixOf?, hc]
  | c :: d :: text =>
      by_cases hc : '=' = c
      · subst hc
        by_cases hd : '{' = d <;> simp [List.isPrefixOf?, hd]
      · simp [List.isPrefixOf?, hc]

theorem readFilter?_append_brace {text : List Char} (hbrace : '}' ∉ text) (hcomma : ',' ∉ text) :
    readFilter? (text ++ ['}']) = unclosed? text := by
  have hafter : afterWordRun (text ++ ['}']) = afterWordRun text ++ ['}'] :=
    dropWhile_append_cons (by decide) text []
  have hword : wordRun (text ++ ['}']) = wordRun text :=
    takeWhile_append_cons (by decide) text []
  have hstarts : startsWord (text ++ ['}']) = startsWord text := by
    cases text <;> rfl
  unfold readFilter? unclosed?
  rw [hafter, hword, hstarts, isPrefixOf?_opening_append_brace]
  cases hbody : ['=', '{'].isPrefixOf? (afterWordRun text) with
  | none => rfl
  | some body =>
      have hsuffix := suffix_of_opening hbody
      obtain ⟨htake, hdrop⟩ := cut_at_mark (fun h => hbrace (hsuffix.subset h)) []
      have hsplit : List.splitOn ',' body = [body] :=
        List.splitOn_eq_singleton fun h => hcomma (hsuffix.subset h)
      have hends : ['}'].isPrefixOf ['}'] = true := rfl
      simp only [Option.map_some, Option.bind_eq_bind, Option.bind_some, htake, hdrop, hsplit,
        hends, Bool.and_true, List.map_cons, List.map_nil]

/-- Of the pieces of a filter only the last one, which the brace closes, can be read. -/
theorem filterMap_readFilter?_closeLast {piece : List Char} {later : List (List Char)}
    (hbrace : ∀ part ∈ piece :: later, '}' ∉ part) (hcomma : ∀ part ∈ piece :: later, ',' ∉ part) :
    (closeLast piece later).filterMap (fun part => readFilter? (trim part)) =
      (unclosed? (skipBlanks ((piece :: later).getLast (List.cons_ne_nil _ _)))).toList := by
  induction later generalizing piece with
  | nil =>
      rw [List.forall_mem_singleton] at hbrace hcomma
      have hsuffix : skipBlanks piece <:+ piece := List.dropWhile_suffix isBlank
      rw [closeLast, List.filterMap_cons, trim_append_singleton (by decide),
        readFilter?_append_brace (fun h => hbrace (hsuffix.subset h))
          (fun h => hcomma (hsuffix.subset h)), List.getLast_singleton]
      cases unclosed? (skipBlanks piece) <;> rfl
  | cons next later ih =>
      rw [List.forall_mem_cons] at hbrace hcomma
      have hnone : readFilter? (trim piece) = none :=
        readFilter?_eq_none fun h => hbrace.1 ((trim_isInfix piece).subset h)
      rw [closeLast, List.filterMap_cons, hnone, List.getLast_cons (List.cons_ne_nil next later)]
      exact ih hbrace.2 hcomma.2

/-- The filter that a value without quotes spells, but for a closing brace. -/
def FilterValue.spelled? (value : FilterValue) : Option (String × List String) :=
  if value.quoted then none else unclosed? (skipBlanks value.chars)

theorem FilterValue.unclosed?_written (value : FilterValue) :
    unclosed? (skipBlanks value.written) = value.spelled? := by
  unfold FilterValue.written FilterValue.spelled?
  split
  · rfl
  · rfl

/-- A filter of a set expression: a field and one or more values. -/
structure Filter where
  lead : List Char
  field : FieldName
  values : Listing FilterValue
  blanks : Blanks lead

namespace Filter

variable (filter : Filter)

/-- The filter up to its first value. -/
def opening : List Char :=
  filter.lead ++ (filter.field.chars ++ '=' :: '{' :: filter.values.first.written)

/-- The values after the first one, as they are written. -/
def later : List (List Char) :=
  filter.values.others.map FilterValue.written

/-- The filter as it is written. -/
def text : List Char :=
  [','].intercalate (filter.opening :: filter.later) ++ ['}']

/-- The field and all values of the filter. -/
def entry : String × List String :=
  (filter.field.text, filter.values.toList.map FilterValue.meaning)

/-- Whether the filter has one value and a field that is a word. -/
def survives : Bool :=
  filter.field.isWord && filter.values.others.isEmpty

/-- The filter that is read where this one is written. Of several values only the last
one counts, and only where it spells a filter itself. -/
def read? : Option (String × List String) :=
  match filter.values.others.getLast? with
  | none => if filter.field.isWord then some filter.entry else none
  | some last => last.spelled?

/-- What stands between the commas of the filter. -/
def pieces : List (List Char) :=
  closeLast filter.opening filter.later

theorem text_eq_intercalate : filter.text = [','].intercalate filter.pieces :=
  (intercalate_closeLast [','] filter.opening filter.later).symm

theorem not_mem_pieces {c : Char} (hc : c ∈ [',', '}', '>']) :
    ∀ piece ∈ filter.opening :: filter.later, c ∉ piece := by
  obtain ⟨hvalue, hfield, hblank, hequals, hbrace, hquote⟩ := of_mem_closers hc
  intro piece hpiece
  cases List.mem_cons.mp hpiece with
  | inl hopening =>
      have hlead : c ∉ filter.lead := filter.blanks.not_mem hblank
      have hfirst := filter.values.first.not_mem_written hvalue hquote
      simp [hopening, opening, hlead, filter.field.not_mem hfield, hfirst, hequals, hbrace]
  | inr hlater =>
      obtain ⟨value, -, rfl⟩ := List.mem_map.mp hlater
      exact value.not_mem_written hvalue hquote

theorem unclosed?_opening :
    unclosed? (skipBlanks filter.opening) =
      if filter.field.isWord then some (filter.field.text, [filter.values.first.meaning])
      else none := by
  have hskip : skipBlanks filter.opening =
      filter.field.chars ++ '=' :: '{' :: filter.values.first.written := by
    apply filter.blanks.skipBlanks_append
    exact filter.field.flush.append filter.field.ne_nil _
  rw [hskip, unclosed?]
  split
  · next hword =>
      -- The run of word characters is the field, and the opening brace follows it.
      have hstop : startsWord ('=' :: '{' :: filter.values.first.written) = false := rfl
      obtain ⟨hrun, hafter⟩ := wordRun_append hword hstop
      rw [hrun, hafter, filter.field.startsWord_append hword]
      simp [List.isPrefixOf?, filter.values.first.written_ne_nil, FilterValue.filterValue_written,
        FieldName.text]
  · next hword =>
      rw [filter.field.isPrefixOf?_afterWordRun_eq_none (Bool.not_eq_true _ ▸ hword)]
      rfl

theorem filterMap_readFilter?_pieces :
    filter.pieces.filterMap (fun part => readFilter? (trim part)) =
      filter.read?.toList := by
  rw [pieces, filterMap_readFilter?_closeLast (filter.not_mem_pieces (by decide))
    (filter.not_mem_pieces (by decide)), read?]
  cases hlast : filter.values.others.getLast? with
  | none =>
      have hothers : filter.values.others = [] := List.getLast?_eq_none_iff.mp hlast
      have hlater : filter.later = [] := by rw [later, hothers, List.map_nil]
      simp only [hlater, List.getLast_singleton, unclosed?_opening, entry, Listing.toList, hothers,
        List.map_cons, List.map_nil]
  | some last =>
      have hne : filter.values.others ≠ [] := by
        intro hnil
        rw [hnil] at hlast
        cases hlast
      have hlater : filter.later ≠ [] := by simpa [later] using hne
      have hwritten : filter.later.getLast hlater = last.written := by
        apply Option.some.inj
        rw [← List.getLast?_eq_some_getLast hlater, later, List.getLast?_map, hlast,
          Option.map_some]
      rw [List.getLast_cons hlater, hwritten, last.unclosed?_written]

end Filter

/-- The text of a set expression. -/
def setText (filters : Listing Filter) : List Char :=
  [','].intercalate (filters.toList.map Filter.text)

theorem setText_eq_intercalate (filters : Listing Filter) :
    setText filters = [','].intercalate (filters.toList.flatMap Filter.pieces) := by
  have hgroups : ∀ group ∈ filters.toList.map Filter.pieces, group ≠ [] := by
    intro group hgroup
    obtain ⟨filter, -, rfl⟩ := List.mem_map.mp hgroup
    exact closeLast_ne_nil filter.opening filter.later
  rw [setText, List.flatMap_def, ← intercalate_map_intercalate [','] hgroups, List.map_map]
  congr 2
  funext filter
  exact filter.text_eq_intercalate

theorem not_mem_of_mem_pieces {c : Char} (hc : c ∈ [',', '}', '>']) (hbrace : c ≠ '}')
    {filters : List Filter} : ∀ piece ∈ filters.flatMap Filter.pieces, c ∉ piece := by
  intro piece hpiece
  obtain ⟨filter, -, hmem⟩ := List.mem_flatMap.mp hpiece
  exact not_mem_closeLast hbrace (filter.not_mem_pieces hc) piece hmem

theorem closing_not_mem_setText (filters : Listing Filter) : '>' ∉ setText filters := by
  rw [setText_eq_intercalate]
  intro hmem
  cases mem_intercalate hmem with
  | inl hcomma => exact absurd hcomma (by decide)
  | inr hpiece =>
      obtain ⟨piece, hpiece, hmem⟩ := hpiece
      exact not_mem_of_mem_pieces (by decide) (by decide) piece hpiece hmem

theorem setText_ne_nil (filters : Listing Filter) : setText filters ≠ [] := by
  have htext : filters.first.text ≠ [] := by simp [Filter.text]
  cases hothers : filters.others with
  | nil => simpa [setText, Listing.toList, hothers] using htext
  | cons next others => simp [setText, Listing.toList, hothers, htext]

/-- The filters that are read out of a set expression. -/
theorem readFilters_setText (filters : Listing Filter) :
    readFilters (String.ofList (setText filters)) =
      Catalog.ofList (filters.toList.filterMap Filter.read?) := by
  have hsplit : List.splitOn ',' (setText filters) = filters.toList.flatMap Filter.pieces := by
    rw [setText_eq_intercalate]
    apply List.splitOn_intercalate
    · exact not_mem_of_mem_pieces (by decide) (by decide)
    · simp [Listing.toList, Filter.pieces, closeLast_ne_nil]
  rw [readFilters, String.toList_ofList, hsplit, List.filterMap_flatMap]
  simp only [Filter.filterMap_readFilter?_pieces, ← List.filterMap_eq_flatMap_toList]

end QlikMigration.Dax
