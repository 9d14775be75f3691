import QlikMigration.Proofs.FormulaExtent
import QlikMigration.Proofs.SchemaRows

/-!
# Formulas whose filters have one value

A formula whose filters have one value each is read as a whole. What it comes to
is stated here as a relation with one case for each outcome, `Outcome`: the
function may be unknown, then the field, then the field of a filter, and the
first of these faults is the one that is reported. A formula without a fault
becomes an aggregation under conditions, one for each field that is filtered,
in the order in which the fields first come up. Where a field is filtered more
than once, its last value counts.
-/

namespace QlikMigration.Dax

open QlikMigration.Text QlikMigration.Script

/-! ## The formula as it is written -/

/-- The name as a text. -/
def Name.text (name : Name) : String :=
  String.ofList name.chars

/-- A filter with one value, after white space. -/
structure SingleFilter extends FilterText where
  lead : List Char
  blanks : Blanks lead
  single : ',' ∉ values
  inside : '>' ∉ values

namespace SingleFilter

variable (filter : SingleFilter)

/-- The filter as it stands between two commas. -/
def piece : List Char :=
  filter.lead ++ filter.toFilterText.text

theorem not_mem_piece {c : Char} (hblank : isBlank c = false) (hword : isWord c = false)
    (hsign : c ∉ ['=', '{', '}']) (hvalue : c ∉ filter.values) : c ∉ filter.piece := by
  have hlead : c ∉ filter.lead := filter.blanks.not_mem hblank
  have hfield : c ∉ filter.field.chars := by
    intro hmem
    rw [List.all_eq_true.mp filter.field.word c hmem] at hword
    cases hword
  simp only [List.mem_cons, List.not_mem_nil, or_false, not_or] at hsign
  simp [piece, FilterText.text, hlead, hfield, hvalue, hsign]

theorem trim_piece : trim filter.piece = filter.toFilterText.text := by
  have hform : filter.piece =
      filter.lead ++ (filter.field.chars ++ '=' :: '{' :: filter.values) ++ ['}'] := by
    simp [piece, FilterText.text]
  rw [hform, trim_append_singleton (by decide),
    filter.blanks.skipBlanks_append (filter.field.flush_append _)]
  simp [FilterText.text]

/-- The field of the filter and its value. -/
def entry : String × List String :=
  (filter.field.text, [filterValue filter.values])

theorem readFilter?_trim_piece : readFilter? (trim filter.piece) = some filter.entry := by
  have hread := readFilter?_text_append filter.toFilterText []
  rw [List.append_nil] at hread
  rw [filter.trim_piece, hread, FilterText.entry, List.splitOn_eq_singleton filter.single]
  rfl

/-- The value that the filter gives: what stands in its braces without white space around it,
and then without quotes around that. -/
def Gives (value : List Char) : Prop :=
  ∃ inner, Stripped isBlank filter.values inner ∧
    Stripped (fun c => c == '\'' || c == '"') inner value

theorem gives_iff {value : List Char} :
    filter.Gives value ↔ filterValue filter.values = String.ofList value := by
  constructor
  · rintro ⟨inner, hinner, hvalue⟩
    rw [filterValue, trim, trimOf_eq_iff.mpr hinner, trimOf_eq_iff.mpr hvalue]
  · intro h
    exact ⟨_, stripped_trimOf _ _, trimOf_eq_iff.mp (String.ofList_injective h)⟩

end SingleFilter

/-- An aggregation of a field under filters with one value each. -/
structure SingleFormula where
  function : Name
  filters : Listing SingleFilter
  gap : List Char
  field : Name
  blanks : Blanks gap

namespace SingleFormula

variable (formula : SingleFormula)

/-- What stands between the angle brackets. -/
def body : List Char :=
  [','].intercalate (formula.filters.toList.map SingleFilter.piece)

theorem body_ne_nil : formula.body ≠ [] := by
  have hpiece : formula.filters.first.piece ≠ [] := by
    simp [SingleFilter.piece, FilterText.text]
  cases hothers : formula.filters.others with
  | nil => simpa [body, Listing.toList, hothers] using hpiece
  | cons next others => simp [body, Listing.toList, hothers, hpiece]

theorem closing_not_mem_body : '>' ∉ formula.body := by
  intro hmem
  cases mem_intercalate hmem with
  | inl hcomma => exact absurd hcomma (by decide)
  | inr hpiece =>
      obtain ⟨piece, hpiece, hmem⟩ := hpiece
      obtain ⟨filter, -, rfl⟩ := List.mem_map.mp hpiece
      exact filter.not_mem_piece (by decide) (by decide) (by decide) filter.inside hmem

/-- The formula as an aggregation with a set expression. -/
def aggregation : Aggregation where
  function := formula.function
  lead := []
  set := some ⟨formula.body, formula.gap, formula.body_ne_nil, formula.closing_not_mem_body,
    formula.blanks⟩
  field := formula.field
  trail := []
  lead_blanks := .nil
  trail_blanks := .nil

/-- The formula as it is written. -/
def text : String :=
  String.ofList (formula.function.chars ++ '(' :: '{' :: '<' ::
    (formula.body ++ '>' :: '}' :: (formula.gap ++ (formula.field.chars ++ [')']))))

theorem text_eq : formula.text = String.ofList formula.aggregation.text := by
  simp [text, aggregation, Aggregation.text, Aggregation.inner, Aggregation.closing, SetPart.text]

theorem readFilters_body :
    readFilters (String.ofList formula.body) =
      Catalog.ofList (formula.filters.toList.map SingleFilter.entry) := by
  have hsplit : List.splitOn ',' formula.body = formula.filters.toList.map SingleFilter.piece := by
    apply List.splitOn_intercalate
    · intro piece hpiece
      obtain ⟨filter, -, rfl⟩ := List.mem_map.mp hpiece
      exact filter.not_mem_piece (by decide) (by decide) (by decide) filter.single
    · simp [Listing.toList]
  rw [readFilters, String.toList_ofList, hsplit, List.filterMap_map]
  congr 1
  rw [← List.filterMap_eq_map]
  apply List.filterMap_congr
  intro filter _
  exact filter.readFilter?_trim_piece

/-! ## What it comes to -/

/-- The fields that are filtered, in the order in which they first come up. -/
def fields : List String :=
  (formula.filters.toList.map fun filter => filter.field.text).eraseDups

/-- The last filter on a field. -/
def lastFilter? (field : String) : Option SingleFilter :=
  (formula.filters.toList.filter fun filter => filter.field.text == field).getLast?

/-- The first filter on a field that the schema does not have. -/
def unknownFilter? (schema : Schema) : Option SingleFilter :=
  formula.filters.toList.find? fun filter => (table? schema filter.field.text).isNone

/-- A text is the condition on a field: the field with its table before it, and the last value
that is given for it, in double quotes unless it consists of digits. -/
def IsCondition (schema : Schema) (field text : String) : Prop :=
  ∃ table filter value, table? schema field = some table ∧
    formula.lastFilter? field = some filter ∧ filter.Gives value ∧
    text = table ++ "[" ++ field ++ "]" ++ " = " ++
      (if isDigits value then String.ofList value else "\"" ++ String.ofList value ++ "\"")

end SingleFormula

/-- The functions that can be converted, each with its name in the result. -/
def counterparts : List (String × String) :=
  [("Sum", "SUM"), ("Avg", "AVERAGE"), ("Count", "COUNT"), ("Min", "MIN"), ("Max", "MAX")]

theorem function?_eq_some_iff {name function : String} :
    function? name = some function ↔ (name, function) ∈ counterparts := by
  unfold function?
  split <;> simp_all [counterparts, eq_comm]

theorem function?_eq_none_iff {name : String} :
    function? name = none ↔ name ∉ counterparts.map Prod.fst := by
  simp [Option.eq_none_iff_forall_ne_some, function?_eq_some_iff]

/-- What a formula comes to: the first of its faults, or an aggregation with one condition for
each field that is filtered. -/
inductive Outcome (schema : Schema) (formula : SingleFormula) : Except DaxError String → Prop
  | unsupported (hfunction : formula.function.text ∉ counterparts.map Prod.fst) :
      Outcome schema formula (.error (.unsupportedFunction formula.function.text))
  | unknownField (hfunction : formula.function.text ∈ counterparts.map Prod.fst)
      (hfield : table? schema formula.field.text = none) :
      Outcome schema formula (.error (.unknownField formula.field.text))
  | unknownFilterField {table : String} {filter : SingleFilter}
      (hfunction : formula.function.text ∈ counterparts.map Prod.fst)
      (hfield : table? schema formula.field.text = some table)
      (hfilter : formula.unknownFilter? schema = some filter) :
      Outcome schema formula (.error (.unknownFilterField filter.field.text))
  | converted {function table : String} {conditions : List String}
      (hfunction : (formula.function.text, function) ∈ counterparts)
      (hfield : table? schema formula.field.text = some table)
      (hconditions : List.Forall₂ (formula.IsCondition schema) formula.fields conditions) :
      Outcome schema formula (.ok ("CALCULATE(" ++
        (function ++ "(" ++ (table ++ "[" ++ formula.field.text ++ "]") ++ ")") ++ ", " ++
        ", ".intercalate conditions ++ ")"))

/-! ## Conditions in order -/

/-- Without its repetitions a list has the same first member with a property. -/
theorem find?_eraseDups (p : String → Bool) (names : List String) :
    names.eraseDups.find? p = names.find? p := by
  induction names using List.reverseRecOn with
  | nil => rfl
  | append_singleton names last ih =>
      rw [List.eraseDups_append, List.find?_append, List.find?_append, ih]
      by_cases hlast : last ∈ names
      · -- A repeated name is found where it first stands, if at all.
        have hnone : ([last].removeAll names).eraseDups = [] := by
          simp [List.cons_removeAll, hlast]
        rw [hnone]
        cases hp : p last with
        | false => simp [hp]
        | true =>
            have hsome : (names.find? p).isSome = true :=
              List.find?_isSome.mpr ⟨last, hlast, hp⟩
            obtain ⟨found, hfound⟩ := Option.isSome_iff_exists.mp hsome
            rw [hfound]
            rfl
      · simp [List.cons_removeAll, List.eraseDups_cons, hlast]

/-- The first field that the schema does not have is reported. -/
theorem find?_of_conditions_eq_error {schema : Schema} {entries : List (String × List String)}
    {cause : DaxError} (h : conditions schema entries = .error cause) :
    ∃ name, (entries.map Prod.fst).find? (fun name => (table? schema name).isNone) =
        some name ∧ cause = .unknownFilterField name := by
  induction entries with
  | nil => cases h
  | cons entry entries ih =>
      rw [conditions_cons] at h
      cases htable : table? schema entry.1 with
      | none =>
          rw [htable] at h
          cases h
          exact ⟨entry.1, by simp [htable], rfl⟩
      | some table =>
          rw [htable] at h
          cases hrest : conditions schema entries with
          | ok texts =>
              rw [hrest] at h
              cases h
          | error other =>
              rw [hrest] at h
              cases h
              obtain ⟨name, hfind, rfl⟩ := ih hrest
              exact ⟨name, by simpa [htable] using hfind, rfl⟩

namespace SingleFormula

variable {schema : Schema} (formula : SingleFormula)

theorem names_entries :
    (Catalog.ofList (formula.filters.toList.map SingleFilter.entry)).names = formula.fields := by
  rw [Catalog.names_ofList, List.map_map]
  rfl

/-- The field that is reported is that of the first filter on an unknown field. -/
theorem exists_unknownFilter? {cause : DaxError}
    (h : conditions schema
      (Catalog.ofList (formula.filters.toList.map SingleFilter.entry)).entries = .error cause) :
    ∃ filter, formula.unknownFilter? schema = some filter ∧
      cause = .unknownFilterField filter.field.text := by
  obtain ⟨name, hfind, rfl⟩ := find?_of_conditions_eq_error h
  rw [← Catalog.names, formula.names_entries, fields, find?_eraseDups,
    List.find?_map, Option.map_eq_some_iff] at hfind
  obtain ⟨filter, hfilter, rfl⟩ := hfind
  exact ⟨filter, hfilter, rfl⟩

/-- Under a field the value of its last filter is found. -/
theorem get?_entries (field : String) :
    (Catalog.ofList (formula.filters.toList.map SingleFilter.entry)).get? field =
      (formula.lastFilter? field).map fun filter => [filterValue filter.values] := by
  rw [Catalog.get?_ofList, List.filter_map, List.getLast?_map, Option.map_map]
  rfl

theorem isCondition_of_mem {entry : String × List String}
    (hentry : entry ∈ (Catalog.ofList (formula.filters.toList.map SingleFilter.entry)).entries)
    (hknown : (table? schema entry.1).isSome = true) :
    formula.IsCondition schema entry.1 (condition schema entry) := by
  obtain ⟨field, values⟩ := entry
  obtain ⟨table, htable⟩ := Option.isSome_iff_exists.mp hknown
  have hget := Catalog.get?_eq_some_iff.mpr hentry
  rw [formula.get?_entries, Option.map_eq_some_iff] at hget
  obtain ⟨filter, hlast, rfl⟩ := hget
  refine ⟨table, filter, _, htable, hlast, filter.gives_iff.mpr (String.ofList_toList).symm, ?_⟩
  rw [condition, htable, String.ofList_toList]
  rfl

theorem forall₂_isCondition {conditions : List String}
    (h : Dax.conditions schema
      (Catalog.ofList (formula.filters.toList.map SingleFilter.entry)).entries = .ok conditions) :
    List.Forall₂ (formula.IsCondition schema) formula.fields conditions := by
  obtain ⟨hknown, rfl⟩ := conditions_eq_ok_iff.mp h
  rw [← formula.names_entries, Catalog.names, List.forall₂_map_left_iff, List.forall₂_map_right_iff,
    List.forall₂_same]
  intro entry hentry
  exact formula.isCondition_of_mem hentry (hknown entry hentry)

/-- A field has one condition at most. -/
theorem rightUnique_isCondition : Relator.RightUnique (formula.IsCondition schema) := by
  rintro field _ _ ⟨table, filter, value, htable, hlast, hvalue, rfl⟩
    ⟨table', filter', value', htable', hlast', hvalue', rfl⟩
  obtain rfl := Option.some.inj (htable.symm.trans htable')
  obtain rfl := Option.some.inj (hlast.symm.trans hlast')
  obtain rfl := String.ofList_injective
    ((filter.gives_iff.mp hvalue).symm.trans (filter.gives_iff.mp hvalue'))
  rfl

theorem exists_of_forall₂ {α β : Type} {related : α → β → Prop} {items : List α} {others : List β}
    (h : List.Forall₂ related items others) : ∀ item ∈ items, ∃ other, related item other := by
  induction h with
  | nil => exact fun item hitem => absurd hitem List.not_mem_nil
  | cons hitem _ ih => exact List.forall_mem_cons.mpr ⟨⟨_, hitem⟩, ih⟩

/-- Conditions on all fields that are filtered show that the schema has these fields. -/
theorem table?_ne_none_of_forall₂ {conditions : List String}
    (h : List.Forall₂ (formula.IsCondition schema) formula.fields conditions)
    {filter : SingleFilter} (hfilter : filter ∈ formula.filters.toList) :
    table? schema filter.field.text ≠ none := by
  have hmem : filter.field.text ∈ formula.fields :=
    List.mem_eraseDups.mpr (List.mem_map.mpr ⟨filter, hfilter, rfl⟩)
  obtain ⟨_, table, _, _, htable, -⟩ := exists_of_forall₂ h _ hmem
  rw [htable]
  exact Option.some_ne_none table

theorem outcome_formula : Outcome schema formula (formula.aggregation.measure.formula schema) := by
  have hmeasure : formula.aggregation.measure =
      ⟨formula.function.text, some (String.ofList formula.body), formula.field.text⟩ := rfl
  rw [hmeasure, Measure.formula]
  dsimp only
  cases hfunction : function? formula.function.text with
  | none => exact .unsupported (function?_eq_none_iff.mp hfunction)
  | some function =>
      have hpair := function?_eq_some_iff.mp hfunction
      have hname : formula.function.text ∈ counterparts.map Prod.fst :=
        List.mem_map.mpr ⟨_, hpair, rfl⟩
      cases hfield : table? schema formula.field.text with
      | none => exact .unknownField hname hfield
      | some table =>
          dsimp only
          rw [formula.readFilters_body]
          cases hconditions : conditions schema
              (Catalog.ofList (formula.filters.toList.map SingleFilter.entry)).entries with
          | error cause =>
              obtain ⟨filter, hfilter, rfl⟩ := formula.exists_unknownFilter? hconditions
              exact .unknownFilterField hname hfield hfilter
          | ok texts => exact .converted hpair hfield (formula.forall₂_isCondition hconditions)

end SingleFormula

namespace Outcome

variable {schema : Schema} {formula : SingleFormula} {result other : Except DaxError String}

/-- A formula fails exactly if it has one of the faults. -/
theorem exists_error_iff (h : Outcome schema formula result) :
    (∃ cause, result = .error cause) ↔
      formula.function.text ∉ counterparts.map Prod.fst ∨
        table? schema formula.field.text = none ∨
        ∃ filter ∈ formula.filters.toList, table? schema filter.field.text = none := by
  cases h with
  | unsupported hfunction => exact iff_of_true ⟨_, rfl⟩ (Or.inl hfunction)
  | unknownField _ hfield => exact iff_of_true ⟨_, rfl⟩ (Or.inr (Or.inl hfield))
  | unknownFilterField _ _ hfilter =>
      refine iff_of_true ⟨_, rfl⟩ (Or.inr (Or.inr ⟨_, List.mem_of_find?_eq_some hfilter, ?_⟩))
      simpa using List.find?_some hfilter
  | converted hfunction hfield hconditions =>
      refine iff_of_false (fun ⟨cause, herror⟩ => ?_) ?_
      · cases herror
      · rintro (hnone | hnone | ⟨filter, hfilter, hnone⟩)
        · exact hnone (List.mem_map.mpr ⟨_, hfunction, rfl⟩)
        · rw [hfield] at hnone
          cases hnone
        · exact formula.table?_ne_none_of_forall₂ hconditions hfilter hnone

theorem not_unknownFilter? {conditions : List String} {filter : SingleFilter}
    (hconditions : List.Forall₂ (formula.IsCondition schema) formula.fields conditions) :
    formula.unknownFilter? schema ≠ some filter := by
  intro hfilter
  refine formula.table?_ne_none_of_forall₂ hconditions (List.mem_of_find?_eq_some hfilter) ?_
  simpa using List.find?_some hfilter

/-- A formula comes to one thing only. -/
theorem unique (h : Outcome schema formula result) (h' : Outcome schema formula other) :
    result = other := by
  cases h with
  | unsupported hfunction => cases h' <;> simp_all
  | unknownField hfunction hfield => cases h' <;> simp_all
  | unknownFilterField hfunction hfield hfilter =>
      cases h' with
      | unsupported | unknownField | unknownFilterField => simp_all
      | converted _ _ hconditions => exact absurd hfilter (not_unknownFilter? hconditions)
  | converted hfunction hfield hconditions =>
      cases h' with
      | unsupported | unknownField => simp_all
      | unknownFilterField _ _ hfilter => exact absurd hfilter (not_unknownFilter? hconditions)
      | converted hfunction' hfield' hconditions' =>
          rw [← function?_eq_some_iff] at hfunction hfunction'
          obtain rfl := Option.some.inj (hfunction.symm.trans hfunction')
          obtain rfl := Option.some.inj (hfield.symm.trans hfield')
          rw [formula.rightUnique_isCondition.forall₂ hconditions hconditions']

end Outcome

/-- No table of a schema that was loaded lacks a name, so its fields are found in all of them. -/
theorem table?_of_load {library : TableLibrary} {file : ByteArray} {count : Nat} {schema : Schema}
    (h : Schema.load library file = (.ok count, schema)) (field : String) :
    table? schema field = schema.tableOf? field := by
  have hne := Schema.tableOf?_ne_empty_of_load h field
  rw [table?]
  cases htable : schema.tableOf? field with
  | none => rfl
  | some table => simp_all [present?]

/-- A formula with filters of one value each comes to what `Outcome` says and nothing else: it
fails exactly if its function, its field or the field of a filter is unknown, and otherwise each
field that is filtered gets one condition. In a schema that was loaded, unknown fields are those
that it has no table for. -/
theorem outcome_of_convert (schema : Schema) (formula : SingleFormula) :
    (∀ result, convert schema formula.text = result ↔ Outcome schema formula result) ∧
      ((∃ cause, convert schema formula.text = .error cause) ↔
        formula.function.text ∉ counterparts.map Prod.fst ∨
          table? schema formula.field.text = none ∨
          ∃ filter ∈ formula.filters.toList, table? schema filter.field.text = none) ∧
      ∀ library file count, Schema.load library file = (.ok count, schema) →
        ∀ field, table? schema field = schema.tableOf? field := by
  have houtcome : Outcome schema formula (convert schema formula.text) := by
    rw [formula.text_eq, formula.aggregation.convert_text]
    exact formula.outcome_formula
  refine ⟨fun result => ⟨fun h => h ▸ houtcome, fun h => houtcome.unique h⟩, ?_⟩
  exact ⟨houtcome.exists_error_iff, fun _ _ _ => table?_of_load⟩

/-- Sales by year and region, in three tables. -/
def regionalFile : ByteArray :=
  "table,field,type\nSales,Amount,number\nDates,Year,number\nPlaces,Region,text\n".toUTF8

/-- The schema in the file. -/
def regionalSchema : Schema :=
  .ofList [("Amount", ⟨"Sales", "number"⟩), ("Year", ⟨"Dates", "number"⟩),
    ("Region", ⟨"Places", "text"⟩)]

/-- A filter on the year. -/
def yearIs (year : List Char) (hne : year ≠ []) (hdigits : year.all isDigit = true) :
    SingleFilter where
  field := ⟨['Y', 'e', 'a', 'r'], by decide, by decide⟩
  values := year
  ne_nil := hne
  unclosed hmem := absurd (List.all_eq_true.mp hdigits _ hmem) (by decide)
  lead := []
  blanks := .nil
  single hmem := absurd (List.all_eq_true.mp hdigits _ hmem) (by decide)
  inside hmem := absurd (List.all_eq_true.mp hdigits _ hmem) (by decide)

theorem blanks_space : Blanks [' '] := .singleton rfl

/-- An average under two filters on the year and one on the region between them. -/
def regionalAverage : SingleFormula where
  function := ⟨['A', 'v', 'g'], List.cons_ne_nil _ _, rfl⟩
  filters := {
    first := yearIs ['2', '0', '2', '3'] (List.cons_ne_nil _ _) rfl
    others := [
      { field := ⟨['R', 'e', 'g', 'i', 'o', 'n'], List.cons_ne_nil _ _, rfl⟩
        values := [' ', '\'', 'W', 'e', 's', 't', '\'', ' ']
        ne_nil := List.cons_ne_nil _ _, unclosed := by decide
        lead := [' '], blanks := blanks_space
        single := by decide, inside := by decide },
      yearIs ['2', '0', '2', '4'] (List.cons_ne_nil _ _) rfl] }
  gap := [' ']
  field := ⟨['A', 'm', 'o', 'u', 'n', 't'], List.cons_ne_nil _ _, rfl⟩
  blanks := blanks_space

/-- The year, which is filtered twice, keeps its place and gets its later value. -/
theorem outcome_of_regionalAverage :
    regionalAverage.text =
        "Avg(\x7b<Year=\x7b2023\x7d, Region=\x7b 'West' \x7d,Year=\x7b2024\x7d>\x7d Amount)" ∧
      Outcome regionalSchema regionalAverage
        (.ok "CALCULATE(AVERAGE(Sales[Amount]), Dates[Year] = 2024, Places[Region] = \"West\")") ∧
      (¬ ∃ cause, convert regionalSchema regionalAverage.text = .error cause) ∧
      Schema.load Csv.library regionalFile = (.ok 3, regionalSchema) ∧
      ∀ field, table? regionalSchema field = regionalSchema.tableOf? field := by
  have hconvert : convert regionalSchema regionalAverage.text =
      .ok "CALCULATE(AVERAGE(Sales[Amount]), Dates[Year] = 2024, Places[Region] = \"West\")" := by
    decide +kernel
  have hload : Schema.load Csv.library regionalFile = (.ok 3, regionalSchema) := by decide +kernel
  obtain ⟨houtcome, -, hfound⟩ := outcome_of_convert regionalSchema regionalAverage
  refine ⟨by decide +kernel, (houtcome _).mp hconvert, ?_, hload, hfound _ _ _ hload⟩
  rintro ⟨cause, hcause⟩
  rw [hconvert] at hcause
  cases hcause

end QlikMigration.Dax
