import QlikMigration.Proofs.SetExpressions

/-!
# Filters of a measure

A formula aggregates a field under the filters of a set expression, and each
filter ought to become a condition of its own. `filterRun_of_formula` says what
becomes of them: a formula is converted with the conditions of all its filters
exactly if every filter has one value and a word for a field, as the aggregated
field has. Any other filter is dropped without an error, unless its last value
spells a filter, which then takes its place.

That no other formula gets the text with all conditions holds because conditions
tell their filters. They are read from the end, where a value, the field before
it and so its table can be cut off one after the other (`entries_inj`).
-/

namespace QlikMigration.Dax

open QlikMigration.Text QlikMigration.Script

/-! ## Reading the formula -/

/-- A set expression, a field and the parenthesis that closes the formula. -/
def argumentChars (filters : Listing Filter) (gap : List Char) (field : FieldName) : List Char :=
  '{' :: '<' :: (setText filters ++ '>' :: '}' :: (gap ++ (field.chars ++ [')'])))

/-- An aggregation of a field under a set expression. -/
def formulaChars (function : String) (filters : Listing Filter) (gap : List Char)
    (field : FieldName) : List Char :=
  function.toList ++ '(' :: argumentChars filters gap field

theorem word_of_function? {name function : String} (h : function? name = some function) :
    name.toList ≠ [] ∧ name.toList.all isWord = true := by
  unfold function? at h
  split at h
  case h_6 => cases h
  all_goals decide

/-- Behind the first word of a name that is none, no parenthesis closes the formula. -/
theorem isPrefixOf_closing_eq_false {field : FieldName} (hword : field.isWord = false) :
    [')'].isPrefixOf (skipBlanks (afterWordRun (field.chars ++ [')']))) = false := by
  obtain ⟨c, cs, hafter, hsuffix⟩ := field.exists_afterWordRun hword [')']
  have hne : skipBlanks (c :: cs) ≠ [] := by
    intro hnil
    have hblank := List.dropWhile_eq_nil_iff.mp hnil _ (List.getLast_mem (List.cons_ne_nil c cs))
    have hlast : field.chars.getLast? = some ((c :: cs).getLast (List.cons_ne_nil c cs)) := by
      obtain ⟨front, hfront⟩ := hsuffix
      rw [← hfront, List.getLast?_append_of_ne_nil front (List.cons_ne_nil c cs),
        List.getLast?_eq_some_getLast]
    rw [field.last _ hlast] at hblank
    cases hblank
  obtain ⟨d, ds, hskip⟩ := List.exists_cons_of_ne_nil hne
  have hd : ')' ≠ d := by
    intro heq
    have hrest : skipBlanks (c :: cs) <:+ c :: cs := List.dropWhile_suffix isBlank
    have hmem : d ∈ field.chars := hsuffix.subset (hrest.subset (hskip ▸ List.mem_cons_self))
    exact field.not_mem (by decide) (heq ▸ hmem)
  have hdrop : skipBlanks (c :: cs ++ [')']) = d :: (ds ++ [')']) := by
    rw [skipBlanks, dropWhile_append_cons (by decide), ← skipBlanks, hskip, List.cons_append]
  rw [hafter, hdrop]
  simp [List.isPrefixOf, hd]

theorem closingField?_append (field : FieldName) :
    closingField? (field.chars ++ [')']) =
      if field.isWord then some field.chars else none := by
  unfold closingField?
  cases hword : field.isWord with
  | true =>
      obtain ⟨hrun, hafter⟩ := wordRun_append hword (rfl : startsWord [')'] = false)
      rw [field.startsWord_append hword, hrun, hafter]
      rfl
  | false =>
      rw [isPrefixOf_closing_eq_false hword, Bool.and_false]
      rfl

theorem setExpression?_argumentChars (filters : Listing Filter) {gap : List Char}
    (hgap : Blanks gap) (field : FieldName) :
    setExpression? (argumentChars filters gap field) =
      some (setText filters, field.chars ++ [')']) := by
  obtain ⟨htake, hdrop⟩ :=
    cut_at_mark (closing_not_mem_setText filters) ('}' :: (gap ++ (field.chars ++ [')'])))
  have hskip : skipBlanks (gap ++ (field.chars ++ [')'])) = field.chars ++ [')'] :=
    hgap.skipBlanks_append (field.flush.append field.ne_nil [')'])
  simp only [argumentChars, setExpression?, List.isPrefixOf?, beq_self_eq_true, if_true,
    Option.bind_eq_bind, Option.bind_some, htake, hdrop, hskip,
    List.isEmpty_iff, setText_ne_nil, if_false]

theorem readMeasure?_formulaChars {name function : String}
    (hfunction : function? name = some function) (filters : Listing Filter) {gap : List Char}
    (hgap : Blanks gap) (field : FieldName) :
    readMeasure? (formulaChars name filters gap field) =
      if field.isWord then some ⟨name, some (String.ofList (setText filters)), field.text⟩
      else none := by
  obtain ⟨hne, hword⟩ := word_of_function? hfunction
  have hstop : startsWord ('(' :: argumentChars filters gap field) = false := rfl
  obtain ⟨hrun, hafter⟩ := wordRun_append hword hstop
  have hstarts : startsWord (formulaChars name filters gap field) = true :=
    startsWord_word_append hne (List.all_eq_true.mp hword) _
  have hskip : skipBlanks (argumentChars filters gap field) = argumentChars filters gap field := rfl
  rw [readMeasure?, hstarts, formulaChars, hrun, hafter]
  simp only [List.isPrefixOf?, beq_self_eq_true, if_true, Option.bind_eq_bind, Option.bind_some,
    hskip, setExpression?_argumentChars filters hgap field,
    closingField?_append, String.ofList_toList]
  cases field.isWord <;> rfl

theorem trim_formulaChars {name function : String} (hfunction : function? name = some function)
    (filters : Listing Filter) (gap : List Char) (field : FieldName) :
    trim (formulaChars name filters gap field) = formulaChars name filters gap field := by
  obtain ⟨hne, hword⟩ := word_of_function? hfunction
  have hflush : Flush name.toList := by
    intro c hc
    exact isBlank_of_isWord (List.all_eq_true.mp hword c (List.mem_of_mem_head? hc))
  have hform : formulaChars name filters gap field = name.toList ++ ('(' :: '{' :: '<' ::
      (setText filters ++ '>' :: '}' :: (gap ++ field.chars))) ++ [')'] := by
    simp [formulaChars, argumentChars]
  rw [hform, trim_append_singleton (by decide), skipBlanks,
    (hflush.append hne _).dropWhile_isBlank]

/-! ## Conditions -/

/-- The condition of a filter whose field the schema has. -/
def condition (schema : Schema) (entry : String × List String) : String :=
  conditionText ((table? schema entry.1).getD "") entry.1 entry.2

theorem conditions_cons (schema : Schema) (entry : String × List String)
    (entries : List (String × List String)) :
    conditions schema (entry :: entries) =
      match table? schema entry.1 with
      | none => .error (.unknownFilterField entry.1)
      | some table =>
        (conditions schema entries).map (conditionText table entry.1 entry.2 :: ·) := by
  obtain ⟨field, values⟩ := entry
  rw [conditions, List.mapM_cons]
  cases htable : table? schema field with
  | none => simp [htable, bind, Except.bind]
  | some table =>
      simp only [htable]
      rfl

theorem conditions_eq_ok_iff {schema : Schema} {entries : List (String × List String)}
    {texts : List String} :
    conditions schema entries = .ok texts ↔
      (∀ entry ∈ entries, (table? schema entry.1).isSome = true) ∧
        texts = entries.map (condition schema) := by
  induction entries generalizing texts with
  | nil =>
      rw [conditions, List.mapM_nil]
      exact ⟨fun h => ⟨List.forall_mem_nil _, (Except.ok.inj h).symm⟩, fun h => h.2 ▸ rfl⟩
  | cons entry entries ih =>
      rw [conditions_cons, List.forall_mem_cons, List.map_cons, condition]
      cases htable : table? schema entry.1 with
      | none => simp
      | some table =>
          cases hrest : conditions schema entries with
          | error cause =>
              have hnone : ¬ ∀ entry ∈ entries, (table? schema entry.1).isSome = true := by
                intro hall
                rw [ih.mpr ⟨hall, rfl⟩] at hrest
                cases hrest
              exact ⟨nofun, fun h => absurd h.1.2 hnone⟩
          | ok others =>
              obtain ⟨hall, rfl⟩ := ih.mp hrest
              exact ⟨fun h => ⟨⟨rfl, hall⟩, (Except.ok.inj h).symm⟩,
                fun h => congrArg Except.ok h.2.symm⟩

/-! ## Conditions from the end -/

/-- What stands before and after the last occurrence of a character is unique. -/
theorem append_cons_inj_of_last {c : Char} {front back front' back' : List Char}
    (hback : c ∉ back) (hback' : c ∉ back') (h : front ++ c :: back = front' ++ c :: back') :
    front = front' ∧ back = back' := by
  -- Were one of the fronts longer, its surplus would bring the character into the other back.
  have hnil : ∀ {surplus tail rest : List Char}, c ∉ tail → c :: tail = surplus ++ c :: rest →
      surplus = [] := by
    intro surplus tail rest htail heq
    cases surplus with
    | nil => rfl
    | cons d surplus =>
        rw [List.cons_append, List.cons.injEq] at heq
        exact absurd (heq.2 ▸ List.mem_append_right surplus List.mem_cons_self) htail
  cases List.append_eq_append_iff.mp h with
  | inl hlonger =>
      obtain ⟨surplus, rfl, heq⟩ := hlonger
      obtain rfl := hnil hback heq
      exact ⟨(List.append_nil front).symm, (List.cons.inj heq).2⟩
  | inr hlonger =>
      obtain ⟨surplus, rfl, heq⟩ := hlonger
      obtain rfl := hnil hback' heq
      exact ⟨List.append_nil front', (List.cons.inj heq).2.symm⟩

theorem not_mem_of_isDigits {cs : List Char} (h : isDigits cs = true) {c : Char}
    (hc : isDigit c = false) : c ∉ cs := by
  rw [isDigits, Bool.and_eq_true, List.all_eq_true] at h
  intro hmem
  rw [h.2 c hmem] at hc
  cases hc

theorem ne_nil_of_isDigits {cs : List Char} (h : isDigits cs = true) : cs ≠ [] := by
  rintro rfl
  cases h

theorem toList_valueText (value : String) :
    (valueText value).toList =
      if isDigits value.toList then value.toList else '"' :: (value.toList ++ ['"']) := by
  unfold valueText
  split
  · rfl
  · simp

theorem append_digits_ne (front front' : List Char) {cs : List Char} (h : isDigits cs = true)
    {c : Char} (hc : isDigit c = false) : front ++ cs ≠ front' ++ [c] := by
  intro heq
  have hlast := congrArg List.getLast? heq
  rw [List.getLast?_append_of_ne_nil front (ne_nil_of_isDigits h), List.getLast?_concat] at hlast
  exact not_mem_of_isDigits h hc (List.mem_of_getLast? hlast)

theorem digits_ne_quoted (front front' : List Char) {digits : List Char}
    (h : isDigits digits = true) (quoted : List Char) :
    front ++ ' ' :: digits ≠ front' ++ ' ' :: '"' :: (quoted ++ ['"']) := by
  intro heq
  have hends : front ++ [' '] ++ digits = front' ++ ' ' :: '"' :: quoted ++ ['"'] := by
    simpa using heq
  exact append_digits_ne _ _ h (by decide) hends

theorem append_valueText_ne (front front' : List Char) (value : String) :
    front ++ (valueText value).toList ≠ front' ++ ['}'] := by
  rw [toList_valueText]
  split
  · next hdigits => exact append_digits_ne front front' hdigits (by decide)
  · intro heq
    have hlast := congrArg List.getLast? heq
    rw [← List.cons_append, ← List.append_assoc, List.getLast?_concat,
      List.getLast?_concat] at hlast
    cases hlast

theorem value_inj {front front' : List Char} {value value' : String} (hvalue : '"' ∉ value.toList)
    (hvalue' : '"' ∉ value'.toList)
    (h : front ++ ' ' :: (valueText value).toList = front' ++ ' ' :: (valueText value').toList) :
    front = front' ∧ value = value' := by
  rw [toList_valueText, toList_valueText] at h
  split at h
  · next hdigits =>
      split at h
      · next hdigits' =>
          have hspace : ' ' ∉ value.toList := not_mem_of_isDigits hdigits (by decide)
          have hspace' : ' ' ∉ value'.toList := not_mem_of_isDigits hdigits' (by decide)
          exact (append_cons_inj_of_last hspace hspace' h).imp id String.toList_inj.mp
      · exact absurd h (digits_ne_quoted front front' hdigits value'.toList)
  · split at h
    · next hdigits' =>
        exact absurd h.symm (digits_ne_quoted front' front hdigits' value.toList)
    · have hclosed : front ++ [' '] ++ '"' :: value.toList ++ ['"'] =
          front' ++ [' '] ++ '"' :: value'.toList ++ ['"'] := by
        simpa using h
      obtain ⟨hfront, hvalues⟩ :=
        append_cons_inj_of_last hvalue hvalue' (List.append_cancel_right hclosed)
      exact ⟨List.append_cancel_right hfront, String.toList_inj.mp hvalues⟩

/-- A filter that its condition spells: its field has no opening bracket and its values have
no double quotes. -/
structure Plain (entry : String × List String) : Prop where
  field : '[' ∉ entry.1.toList
  values : ∀ value ∈ entry.2, '"' ∉ value.toList

theorem toList_condition_single (schema : Schema) (name value : String) :
    (condition schema (name, [value])).toList =
      ((table? schema name).getD "").toList ++ '[' :: name.toList ++ [']', ' ', '='] ++
        ' ' :: (valueText value).toList := by
  simp [condition, conditionText, fieldText]

theorem exists_condition_several (schema : Schema) {entry : String × List String}
    (h : ∀ value, entry.2 ≠ [value]) :
    ∃ front, (condition schema entry).toList = front ++ ['}'] := by
  obtain ⟨name, values⟩ := entry
  unfold condition conditionText
  split
  · next value hvalue => exact absurd hvalue (h value)
  · exact ⟨_, String.toList_append⟩

theorem condition_inj {schema : Schema} {front front' : List Char} {name value : String}
    {entry : String × List String} (hsingle : Plain (name, [value])) (hentry : Plain entry)
    (h : front ++ (condition schema (name, [value])).toList =
      front' ++ (condition schema entry).toList) :
    front = front' ∧ (name, [value]) = entry := by
  by_cases hvalues : ∃ value', entry.2 = [value']
  · obtain ⟨name', values⟩ := entry
    obtain ⟨value', rfl⟩ := hvalues
    rw [toList_condition_single, toList_condition_single] at h
    -- The value is cut off first, then the sign, then the field; the field gives the table.
    simp only [← List.append_assoc] at h
    obtain ⟨hsign, rfl⟩ := value_inj (hsingle.values value List.mem_cons_self)
      (hentry.values value' List.mem_cons_self) h
    obtain ⟨htable, hname⟩ :=
      append_cons_inj_of_last hsingle.field hentry.field (List.append_cancel_right hsign)
    obtain rfl := String.toList_inj.mp hname
    exact ⟨List.append_cancel_right htable, rfl⟩
  · obtain ⟨several, hseveral⟩ := exists_condition_several schema (not_exists.mp hvalues)
    rw [toList_condition_single, hseveral, List.append_cons _ ' '] at h
    simp only [← List.append_assoc] at h
    exact absurd h (append_valueText_ne _ _ value)

/-- What stands before the piece that comes after some pieces. -/
def leading (separator : List Char) (pieces : List (List Char)) : List Char :=
  if pieces = [] then [] else separator.intercalate pieces ++ separator

theorem intercalate_append_eq_leading (separator : List Char) (pieces : List (List Char))
    (last : List Char) :
    separator.intercalate (pieces ++ [last]) = leading separator pieces ++ last := by
  unfold leading
  split
  · next hnil => simp [hnil]
  · next hne => rw [intercalate_append_singleton separator hne, List.append_assoc]

/-- The pieces before the last one are as many and join to the same text. -/
theorem intercalate_eq_of_leading {separator : List Char} (hseparator : separator ≠ [])
    {pieces others : List (List Char)} (h : leading separator pieces = leading separator others) :
    separator.intercalate pieces = separator.intercalate others := by
  unfold leading at h
  split at h
  · next hnil =>
      split at h
      · next hnil' => rw [hnil, hnil']
      · exact absurd h.symm (by simp [hseparator])
  · split at h
    · exact absurd h (by simp [hseparator])
    · exact List.append_cancel_right h

theorem condition_ne_nil (schema : Schema) (entry : String × List String) :
    (condition schema entry).toList ≠ [] := by
  unfold condition conditionText
  split <;> simp [fieldText]

/-- Conditions of one value each tell the filters they are the conditions of. -/
theorem entries_inj (schema : Schema) {read written : List (String × List String)}
    (hread : ∀ entry ∈ read, Plain entry ∧ ∃ value, entry.2 = [value])
    (hwritten : ∀ entry ∈ written, Plain entry)
    (h : [',', ' '].intercalate (read.map fun entry => (condition schema entry).toList) =
      [',', ' '].intercalate (written.map fun entry => (condition schema entry).toList)) :
    read = written := by
  induction read using List.reverseRecOn generalizing written with
  | nil =>
      cases List.eq_nil_or_concat written with
      | inl hnil => exact hnil.symm
      | inr hconcat =>
          obtain ⟨front, last, rfl⟩ := hconcat
          rw [List.concat_eq_append, List.map_append, List.map_singleton,
            intercalate_append_eq_leading] at h
          exact absurd (List.append_eq_nil_iff.mp h.symm).2 (condition_ne_nil schema last)
  | append_singleton read last ih =>
      obtain ⟨hothers, hlast⟩ := List.forall_mem_append.mp hread
      obtain ⟨hplain, value, hvalue⟩ := hlast last List.mem_cons_self
      obtain ⟨name, values⟩ := last
      obtain rfl : values = [value] := hvalue
      rw [List.map_append, List.map_singleton, intercalate_append_eq_leading] at h
      cases List.eq_nil_or_concat written with
      | inl hnil =>
          rw [hnil] at h
          exact absurd (List.append_eq_nil_iff.mp h).2 (condition_ne_nil schema _)
      | inr hconcat =>
          obtain ⟨front, final, rfl⟩ := hconcat
          rw [List.concat_eq_append] at hwritten h ⊢
          obtain ⟨hfront, hfinal⟩ := List.forall_mem_append.mp hwritten
          rw [List.map_append, List.map_singleton, intercalate_append_eq_leading] at h
          obtain ⟨hleading, rfl⟩ := condition_inj hplain (hfinal final List.mem_cons_self) h
          rw [ih hothers hfront (intercalate_eq_of_leading (by decide) hleading)]

/-! ## What is read -/

theorem quote_not_mem_meaning (value : FilterValue) : '"' ∉ value.meaning.toList := by
  have hchars : '"' ∉ value.chars := value.not_mem (by decide)
  rw [FilterValue.meaning, String.toList_ofList]
  split
  · exact hchars
  · exact fun hmem => hchars ((trim_isInfix value.chars).subset hmem)

theorem FilterValue.plain_of_spelled? {value : FilterValue} {read : String × List String}
    (h : value.spelled? = some read) :
    Plain read ∧ (∃ value, read.2 = [value]) ∧ read.1.toList.all isWord = true := by
  unfold FilterValue.spelled? at h
  split at h
  · cases h
  · obtain ⟨body, hbody, hread⟩ := Option.bind_eq_some_iff.mp h
    split at hread
    · obtain rfl := Option.some.inj hread
      have hword : (wordRun (skipBlanks value.chars)).all isWord = true := List.all_takeWhile
      have hchars : body ⊆ value.chars :=
        List.Subset.trans (suffix_of_opening hbody).subset (List.dropWhile_suffix isBlank).subset
      have hquote : '"' ∉ (filterValue body).toList := by
        rw [filterValue_of_unquoted fun c hc => value.unquoted (hchars hc), String.toList_ofList]
        exact fun hmem => value.not_mem (by decide) (hchars ((trim_isInfix body).subset hmem))
      have hbracket : '[' ∉ wordRun (skipBlanks value.chars) := by
        intro hmem
        exact absurd (List.all_eq_true.mp hword '[' hmem) (by decide)
      refine ⟨⟨?_, ?_⟩, ⟨filterValue body, rfl⟩, ?_⟩
      · rwa [String.toList_ofList]
      · exact List.forall_mem_singleton.mpr hquote
      · rwa [String.toList_ofList]
    · cases hread

namespace Filter

variable (filter : Filter)

theorem plain_entry : Plain filter.entry := by
  constructor
  · rw [entry, FieldName.text, String.toList_ofList]
    exact filter.field.not_mem (by decide)
  · intro value hvalue
    obtain ⟨written, -, rfl⟩ := List.mem_map.mp hvalue
    exact quote_not_mem_meaning written

theorem read?_eq_some {read : String × List String} (h : filter.read? = some read) :
    Plain read ∧ (∃ value, read.2 = [value]) ∧ read.1.toList.all isWord = true := by
  unfold read? at h
  split at h
  · next hlast =>
      split at h
      · next hword =>
          obtain rfl := Option.some.inj h
          refine ⟨filter.plain_entry, ⟨filter.values.first.meaning, ?_⟩, ?_⟩
          · rw [entry, Listing.toList, List.getLast?_eq_none_iff.mp hlast, List.map_singleton]
          · rwa [entry, FieldName.text, String.toList_ofList]
      · cases h
  · next last _ => exact last.plain_of_spelled? h

/-- Where no last value spells a filter, the filters of one value are read. -/
theorem read?_eq (h : ∀ last ∈ filter.values.others.getLast?, last.spelled? = none) :
    filter.read? = if filter.survives then some filter.entry else none := by
  unfold read? survives
  cases hlast : filter.values.others.getLast? with
  | none =>
      rw [List.getLast?_eq_none_iff.mp hlast, List.isEmpty_nil, Bool.and_true]
  | some last =>
      have hothers : filter.values.others.isEmpty = false := by
        rw [List.isEmpty_eq_false_iff]
        exact List.ne_nil_of_mem (List.mem_of_getLast? hlast)
      rw [hothers, Bool.and_false]
      exact h last hlast

end Filter

/-! ## Conversion -/

/-- The formula of an aggregation under conditions. -/
def calculate (schema : Schema) (function field : String) (conditions : List String) : String :=
  "CALCULATE(" ++ (function ++ "(" ++ fieldText ((table? schema field).getD "") field ++
    ")") ++ ", " ++ ", ".intercalate conditions ++ ")"

theorem calculate_inj {schema : Schema} {function field : String} {conditions others : List String}
    (h : calculate schema function field conditions = calculate schema function field others) :
    [',', ' '].intercalate (conditions.map String.toList) =
      [',', ' '].intercalate (others.map String.toList) := by
  have hlist := congrArg String.toList h
  simp only [calculate, String.toList_append, String.toList_intercalate] at hlist
  exact List.append_cancel_left (List.append_cancel_right hlist)

/-- How the filters of a formula fare when it is converted to a result. -/
structure FilterRun (schema : Schema) (function : String) (filters : Listing Filter)
    (field : FieldName) (result : Except DaxError String) : Prop where
  /-- A field that is no word is not understood. -/
  invalid : field.isWord = false → result = .error .invalidSyntax
  /-- The conditions are those of the filters that are read. -/
  converted : field.isWord = true → result =
    (conditions schema (Catalog.ofList (filters.toList.filterMap Filter.read?)).entries).map
      (calculate schema function field.text)
  /-- A filter is dropped if it has several values or its field is no word. -/
  dropped : field.isWord = true →
    (∀ filter ∈ filters.toList, ∀ last ∈ filter.values.others.getLast?, last.spelled? = none) →
    result = .ok (calculate schema function field.text
      ((filters.toList.filter Filter.survives).map fun filter => condition schema filter.entry))
  /-- All filters are there exactly if none is dropped. -/
  complete_iff : result = .ok (calculate schema function field.text
      (filters.toList.map fun filter => condition schema filter.entry)) ↔
    field.isWord = true ∧ ∀ filter ∈ filters.toList, filter.survives = true

theorem filterMap_read? {filters : List Filter}
    (h : ∀ filter ∈ filters, ∀ last ∈ filter.values.others.getLast?, last.spelled? = none) :
    filters.filterMap Filter.read? = (filters.filter Filter.survives).map Filter.entry := by
  induction filters with
  | nil => rfl
  | cons filter filters ih =>
      rw [List.forall_mem_cons] at h
      rw [List.filterMap_cons, filter.read?_eq h.1, List.filter_cons, ih h.2]
      cases filter.survives <;> rfl

/-- Where no last value spells a filter, the surviving filters are what is read. -/
theorem conditions_of_survives {schema : Schema} {filters : List Filter}
    (hfields : ∀ filter ∈ filters, (table? schema filter.field.text).isSome = true)
    (hdistinct : (filters.map fun filter => filter.field.text).Nodup)
    (hspelled : ∀ filter ∈ filters, ∀ last ∈ filter.values.others.getLast?, last.spelled? = none) :
    conditions schema (Catalog.ofList (filters.filterMap Filter.read?)).entries =
      .ok ((filters.filter Filter.survives).map fun filter => condition schema filter.entry) := by
  have hnodup : (((filters.filter Filter.survives).map Filter.entry).map Prod.fst).Nodup := by
    rw [List.map_map]
    exact hdistinct.sublist (List.filter_sublist.map _)
  rw [filterMap_read? hspelled, Catalog.entries_ofList hnodup, conditions_eq_ok_iff, List.map_map]
  refine ⟨?_, rfl⟩
  intro entry hentry
  obtain ⟨filter, hfilter, rfl⟩ := List.mem_map.mp hentry
  exact hfields filter (List.mem_of_mem_filter hfilter)

theorem Filter.survives_iff {filter : Filter} :
    filter.survives = true ↔ filter.field.isWord = true ∧ filter.values.others = [] := by
  rw [Filter.survives, Bool.and_eq_true, List.isEmpty_iff]

/-- What is read has one value and a word for a field, so a filter that is read whole
survives. -/
theorem Filter.survives_of_mem_ofList {filter : Filter} {filters : List Filter}
    (h : filter.entry ∈ (Catalog.ofList (filters.filterMap Filter.read?)).entries) :
    filter.survives = true := by
  obtain ⟨source, -, hread⟩ := List.mem_filterMap.mp (Catalog.mem_of_mem_ofList h)
  obtain ⟨-, ⟨value, hvalue⟩, hword⟩ := source.read?_eq_some hread
  rw [Filter.entry, FieldName.text, String.toList_ofList] at hword
  rw [Filter.entry, Listing.toList, List.map_cons, List.cons.injEq, List.map_eq_nil_iff] at hvalue
  exact Filter.survives_iff.mpr ⟨hword, hvalue.2⟩

/-- The text with the conditions of all filters comes out only if every filter survives. -/
theorem survives_of_conditions {schema : Schema} {function field : String} {filters : List Filter}
    (h : (conditions schema (Catalog.ofList (filters.filterMap Filter.read?)).entries).map
        (calculate schema function field) =
      .ok (calculate schema function field
        (filters.map fun filter => condition schema filter.entry))) :
    ∀ filter ∈ filters, filter.survives = true := by
  cases hconditions :
      conditions schema (Catalog.ofList (filters.filterMap Filter.read?)).entries with
  | error cause =>
      rw [hconditions] at h
      cases h
  | ok texts =>
      rw [hconditions] at h
      obtain ⟨-, rfl⟩ := conditions_eq_ok_iff.mp hconditions
      have hjoin := calculate_inj (Except.ok.inj h)
      have hentries :
          (Catalog.ofList (filters.filterMap Filter.read?)).entries = filters.map Filter.entry := by
        apply entries_inj schema
        · intro entry hentry
          obtain ⟨source, -, hread⟩ := List.mem_filterMap.mp (Catalog.mem_of_mem_ofList hentry)
          obtain ⟨hplain, hvalue, -⟩ := source.read?_eq_some hread
          exact ⟨hplain, hvalue⟩
        · intro entry hentry
          obtain ⟨filter, -, rfl⟩ := List.mem_map.mp hentry
          exact filter.plain_entry
        · simpa [Function.comp_def] using hjoin
      intro filter hfilter
      exact Filter.survives_of_mem_ofList (hentries ▸ List.mem_map_of_mem hfilter)

theorem convert_formulaChars {schema : Schema} {name function : String}
    (hfunction : function? name = some function) (filters : Listing Filter) {gap : List Char}
    (hgap : Blanks gap) {field : FieldName}
    (hfield : (table? schema field.text).isSome = true) :
    convert schema (String.ofList (formulaChars name filters gap field)) =
      if field.isWord then
        (conditions schema (Catalog.ofList (filters.toList.filterMap Filter.read?)).entries).map
          (calculate schema function field.text)
      else .error .invalidSyntax := by
  have hne : (formulaChars name filters gap field).isEmpty = false := by
    simp [formulaChars]
  obtain ⟨table, htable⟩ := Option.isSome_iff_exists.mp hfield
  rw [convert, String.toList_ofList, trim_formulaChars hfunction, hne,
    readMeasure?_formulaChars hfunction filters hgap]
  cases field.isWord with
  | false => rfl
  | true =>
      have hcalculate : calculate schema function field.text = fun texts =>
          "CALCULATE(" ++ (function ++ "(" ++ fieldText table field.text ++ ")") ++ ", " ++
            ", ".intercalate texts ++ ")" := by
        funext texts
        rw [calculate, htable, Option.getD_some]
      simp only [if_true, Bool.false_eq_true, if_false, Measure.formula, hfunction, htable,
        readFilters_setText, hcalculate]

/-- Under a supported function, a field of the schema and filters on different fields of it,
a formula gets the conditions of the filters that are read, which are all of them exactly if
each has one value and a word for a field. -/
theorem filterRun_of_formula {schema : Schema} {name function : String}
    (hfunction : function? name = some function) (filters : Listing Filter) {gap : List Char}
    (hgap : Blanks gap) {field : FieldName}
    (hfield : (table? schema field.text).isSome = true)
    (hfields : ∀ filter ∈ filters.toList,
      (table? schema filter.field.text).isSome = true)
    (hdistinct : (filters.toList.map fun filter => filter.field.text).Nodup) :
    FilterRun schema function filters field
      (convert schema (String.ofList (formulaChars name filters gap field))) := by
  have hconvert := convert_formulaChars hfunction filters hgap hfield
  constructor
  · intro hword
    rw [hconvert, hword]
    rfl
  · intro hword
    rw [hconvert, if_pos hword]
  · intro hword hspelled
    rw [hconvert, if_pos hword, conditions_of_survives hfields hdistinct hspelled]
    rfl
  · constructor
    · intro h
      cases hword : field.isWord with
      | false =>
          rw [hconvert, hword] at h
          cases h
      | true =>
          rw [hconvert, if_pos hword] at h
          exact ⟨rfl, survives_of_conditions h⟩
    · rintro ⟨hword, hsurvives⟩
      have hspelled : ∀ filter ∈ filters.toList, ∀ last ∈ filter.values.others.getLast?,
          last.spelled? = none := by
        intro filter hfilter last hlast
        rw [(Filter.survives_iff.mp (hsurvives filter hfilter)).2] at hlast
        cases hlast
      rw [hconvert, if_pos hword, conditions_of_survives hfields hdistinct hspelled,
        List.filter_eq_self.mpr hsurvives]
      rfl

/-- Sales by year and region. -/
def salesSchema : Schema :=
  .ofList [("Sales", ⟨"Sales", "number"⟩), ("Year", ⟨"Sales", "number"⟩),
    ("Region", ⟨"Sales", "text"⟩)]

/-- The field with the sales. -/
def salesField : FieldName :=
  ⟨"Sales".toList, by decide, by decide, by decide⟩

/-- A filter for one year. -/
def yearFilter : Filter where
  lead := []
  field := ⟨"Year".toList, by decide, by decide, by decide⟩
  values := ⟨⟨"2023".toList, false, by decide, by decide⟩, []⟩
  blanks := .nil

/-- A filter for two regions. -/
def regionFilter : Filter where
  lead := [' ']
  field := ⟨"Region".toList, by decide, by decide, by decide⟩
  values := ⟨⟨"North".toList, true, by decide, by decide⟩,
    [⟨"South".toList, true, by decide, by decide⟩]⟩
  blanks := .singleton (by decide)

/-- The sales of one year in two regions. -/
def regionFormula : String :=
  "Sum(\x7b<Year=\x7b2023\x7d, Region=\x7b'North','South'\x7d>\x7d Sales)"

/-- Of the filters for a year and for two regions, the year is left. -/
theorem filterRun_of_regionList :
    String.ofList (formulaChars "Sum" ⟨yearFilter, [regionFilter]⟩ [' '] salesField) =
        regionFormula ∧
      FilterRun salesSchema "SUM" ⟨yearFilter, [regionFilter]⟩ salesField
        (convert salesSchema regionFormula) ∧
      convert salesSchema regionFormula =
        .ok "CALCULATE(SUM(Sales[Sales]), Sales[Year] = 2023)" := by
  have htext : String.ofList (formulaChars "Sum" ⟨yearFilter, [regionFilter]⟩ [' '] salesField) =
      regionFormula := by decide
  have hfunction : function? "Sum" = some "SUM" := rfl
  have hsales : (table? salesSchema salesField.text).isSome = true := by decide
  have hfields : ∀ filter ∈ [yearFilter, regionFilter],
      (table? salesSchema filter.field.text).isSome = true := by
    rw [List.forall_mem_cons, List.forall_mem_singleton]
    decide
  have hspelled : ∀ filter ∈ [yearFilter, regionFilter],
      ∀ last ∈ filter.values.others.getLast?, last.spelled? = none := by
    rw [List.forall_mem_cons, List.forall_mem_singleton]
    exact ⟨nofun, fun last hlast => Option.some.inj hlast ▸ rfl⟩
  have hrun := filterRun_of_formula hfunction ⟨yearFilter, [regionFilter]⟩
    (.singleton (by decide) : Blanks [' ']) hsales hfields (by decide)
  rw [htext] at hrun
  exact ⟨htext, hrun, hrun.dropped (by decide) hspelled⟩

end QlikMigration.Dax
