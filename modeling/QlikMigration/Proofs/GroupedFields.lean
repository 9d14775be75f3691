import QlikMigration.Proofs.FieldNames
import QlikMigration.Proofs.FileFormats
import QlikMigration.Proofs.FrameNames
import QlikMigration.Proofs.JoinKeys

/-!
# Which fields of a grouped load are aggregated

The fields of a grouped load are columns, by which rows may be grouped, and
calls that aggregate a column. Each call ought to become an aggregation under
the name of the field, and no column should. A field counts as an aggregation,
however, if the name of an aggregating function occurs anywhere in it, as
`count` does in `country`. And of fields with the same name, as `Sum(x)` and
`Max(x)` have it, only the last one stays.

`exists_groupedRun_of_addLoad` says what is recorded for every such load, and
that it is what it ought to be exactly if the calls have different names and each
column that is taken for an aggregation is replaced by a later call.
-/

namespace QlikMigration

open QlikMigration.Text QlikMigration.Script

/-! ## Columns and calls -/

/-- The functions that aggregate a column, in lower case. -/
def aggregators : List String :=
  ["sum", "count", "avg", "min", "max"]

/-- A function of some letter case that aggregates a column. -/
def IsAggregator (function : List Char) : Prop :=
  ∃ aggregator ∈ aggregators, lowerAscii function = aggregator.toList

/-- A field is a column, or it calls an aggregating function on a column. The name of a column
has no parentheses. -/
inductive Script.Field.Grouped (field : Field) : Prop
  | column (hcolumn : '(' ∉ field.expression.toList)
  | call {function gap column : List Char} (hfunction : IsAggregator function)
      (hgap : Blanks gap) (hcolumn : '(' ∉ column)
      (hexpression : field.expression.toList = function ++ (gap ++ '(' :: (column ++ [')'])))

/-- Whether a field is a call. -/
def Script.Field.isCall (field : Field) : Bool :=
  field.expression.toList.contains '('

/-- A field mentions an aggregating function if the name of one occurs in it, in any case. -/
def Script.Field.Mentions (field : Field) : Prop :=
  ∃ word ∈ ["sum", "count", "avg", "min", "max", "first", "last"],
    word.toList <:+: lowerAscii field.expression.toList

theorem isAggregate_iff {field : Field} :
    isAggregate field.expression.toList = true ↔ field.Mentions := by
  simp only [isAggregate, mentionsAny, List.any_eq_true, contains_iff, Field.Mentions]

theorem Script.Field.Grouped.mentions {field : Field} (hgrouped : field.Grouped)
    (hcall : field.isCall = true) : field.Mentions := by
  cases hgrouped with
  | column hcolumn =>
      rw [Field.isCall, List.contains_iff_mem] at hcall
      exact absurd hcall hcolumn
  | call hfunction _ _ hexpression =>
      obtain ⟨aggregator, hmem, hlower⟩ := hfunction
      refine ⟨aggregator, ?_, ?_⟩
      · have hsub : aggregators ⊆ ["sum", "count", "avg", "min", "max", "first", "last"] := by
          decide
        exact hsub hmem
      · rw [hexpression, lowerAscii, List.map_append, ← lowerAscii, hlower]
        exact (List.prefix_append _ _).isInfix

/-! ## The name of a field -/

theorem isWord_of_isAlphanum {c : Char} (h : c.isAlphanum = true) : isWord c = true := by
  have hall : ∀ n < 128, (Char.ofNat n).isAlphanum = true → isWord (Char.ofNat n) = true := by
    decide
  have hc := hall c.toNat (Spark.toNat_lt_of_isAlphanum h)
  rw [Char.ofNat_toNat] at hc
  exact hc h

/-- The name of an aggregating function is a word in any letter case. -/
theorem IsAggregator.word {function : List Char} (h : IsAggregator function) :
    function ≠ [] ∧ ∀ c ∈ function, isWord c = true := by
  obtain ⟨aggregator, hmem, hlower⟩ := h
  have hletters : ∀ aggregator ∈ aggregators,
      aggregator.toList ≠ [] ∧ aggregator.toList.all Char.isAlphanum = true := by decide
  obtain ⟨hne, hall⟩ := hletters aggregator hmem
  constructor
  · rintro rfl
    exact hne hlower.symm
  · intro c hc
    apply isWord_of_isAlphanum
    rw [← (Spark.isAlphanum_toLower c).1]
    exact List.all_eq_true.mp hall _ (hlower ▸ List.mem_map_of_mem hc)

theorem unquoted_call {function : List Char} (hne : function ≠ [])
    (hfunction : ∀ c ∈ function, isWord c = true) (rest : List Char) :
    unquoted (function ++ (rest ++ [')'])) = function ++ (rest ++ [')']) := by
  -- The text begins with a letter and ends with a parenthesis, so nothing is taken away.
  have hkeeps : ∀ p : Char → Bool, (∀ c, isWord c = true → p c = false) → p ')' = false →
      trimOf p (function ++ (rest ++ [')'])) = function ++ (rest ++ [')']) := by
    intro p hp hclosing
    obtain ⟨c, cs, rfl⟩ := List.exists_cons_of_ne_nil hne
    have hc : p c = false := hp c (hfunction c List.mem_cons_self)
    rw [← List.append_assoc, trimOf_append_singleton hclosing, List.cons_append,
      List.dropWhile_cons_of_neg (by simp [hc])]
  have hquote : ∀ quote, isWord quote = false → ∀ c, isWord c = true → (c == quote) = false :=
    fun quote hquote c hc => beq_eq_false_iff_ne.mpr (ne_of_isWord hc hquote)
  rw [unquoted, trim, hkeeps isBlank (fun c => isBlank_of_isWord) (by decide),
    hkeeps _ (hquote '"' (by decide)) (by decide), hkeeps _ (hquote '\'' (by decide)) (by decide)]

/-- A call is named after the column that it is applied to. -/
theorem fieldName_call {function column : List Char} (hfunction : IsAggregator function)
    (hcolumn : column ≠ []) (hword : ∀ c ∈ column, isWord c = true) :
    fieldName (function ++ '(' :: (column ++ [')'])) = column := by
  obtain ⟨hne, hletters⟩ := hfunction.word
  have hunquoted := unquoted_call hne hletters ('(' :: column)
  rw [List.cons_append] at hunquoted
  have hcall : CallAt (function ++ '(' :: (column ++ [')'])) column := by
    refine ⟨⟨function, [], rfl, hne, hletters⟩, hcolumn, fun hline => ?_, fun hclosing => ?_⟩
    · exact absurd (hword '\n' hline) (by decide)
    · exact absurd (hword ')' (List.mem_of_mem_tail hclosing)) (by decide)
  obtain ⟨arguments, hargument⟩ := exists_named_fieldName column
  rw [fieldName_word hword hcolumn] at hargument
  apply Named.fieldName_eq (Named.call ?_ (hunquoted.symm ▸ hcall.firstCall) hargument)
  rw [hunquoted]
  intro hone
  exact hone.not_mem (by decide : isWord '(' = false) (by decide) (by simp)

/-- A field that is a column whose name is a word, or that calls a function on such a column. -/
inductive Script.Field.On (field : Field) (column : List Char) : Prop
  | plain (hexpression : field.expression.toList = column)
  | call {function : List Char} (hfunction : IsAggregator function)
      (hexpression : field.expression.toList = function ++ '(' :: (column ++ [')']))

/-- A field without an alias has the name of its column, whatever it computes of it. -/
theorem Script.Field.On.columnName {field : Field} {column : List Char} (h : field.On column)
    (hcolumn : column ≠ []) (hword : ∀ c ∈ column, isWord c = true) :
    field.columnName = (present? field.givenName).getD (String.ofList column) := by
  cases h with
  | plain hexpression => rw [Field.columnName, hexpression, fieldName_word hword hcolumn]
  | call hfunction hexpression =>
      rw [Field.columnName, hexpression, fieldName_call hfunction hcolumn hword]

/-! ## What is recorded -/

/-- The name and the expression of a field. -/
def Script.Field.entry (field : Field) : String × String :=
  (field.columnName, field.expression)

/-- The fields that are calls. -/
def calls (fields : List Field) : List Field :=
  fields.filter Field.isCall

/-- A field that mentions an aggregating function, and after it no field of its name does. -/
def LastMention (fields : List Field) (field : Field) : Prop :=
  ∃ front back, fields = front ++ field :: back ∧ field.Mentions ∧
    ∀ later ∈ back, later.Mentions → later.columnName ≠ field.columnName

theorem LastMention.append_left {fields : List Field} {field : Field}
    (h : LastMention fields field) (front : List Field) : LastMention (front ++ fields) field := by
  obtain ⟨between, back, rfl, hback⟩ := h
  exact ⟨front ++ between, back, (List.append_assoc _ _ _).symm, hback⟩

theorem LastMention.mem {fields : List Field} {field : Field} (h : LastMention fields field) :
    field ∈ fields := by
  obtain ⟨front, back, rfl, -⟩ := h
  exact List.mem_append_right front List.mem_cons_self

/-- Of the fields of one name that mention an aggregating function, one is the last. -/
theorem exists_lastMention {fields : List Field} {field : Field} (hmem : field ∈ fields)
    (hmentions : field.Mentions) :
    ∃ last, LastMention fields last ∧ last.columnName = field.columnName := by
  induction fields generalizing field with
  | nil => cases hmem
  | cons first rest ih =>
      by_cases hlater : ∃ later ∈ rest, later.Mentions ∧ later.columnName = field.columnName
      · obtain ⟨later, hrest, hlater, hname⟩ := hlater
        obtain ⟨last, hlast, hsame⟩ := ih hrest hlater
        exact ⟨last, hlast.append_left [first], hsame.trans hname⟩
      · obtain rfl : field = first := by
          refine (List.mem_cons.mp hmem).resolve_right fun hrest => ?_
          exact hlater ⟨field, hrest, hmentions, rfl⟩
        refine ⟨field, ⟨[], rest, rfl, hmentions, fun later hrest hlast hname => ?_⟩, rfl⟩
        exact hlater ⟨later, hrest, hlast, hname⟩

/-- The entries of the aggregations are those of the last mentions. -/
theorem mem_aggregations_iff {fields : List Field} {entry : String × String} :
    entry ∈ (aggregations fields).entries ↔
      ∃ field, LastMention fields field ∧ field.entry = entry := by
  rw [aggregations, Catalog.mem_ofList_iff]
  constructor
  · rintro ⟨front, back, hcut, hback⟩
    obtain ⟨_, _, hfilter, -, htail⟩ := List.map_eq_append_iff.mp hcut
    obtain ⟨field, later, rfl, hentry, rfl⟩ := List.map_eq_cons_iff.mp htail
    obtain ⟨before, after, rfl, -, hafter⟩ := List.filter_eq_append_iff.mp hfilter
    obtain ⟨between, rest, rfl, -, hfield, rfl⟩ := List.filter_eq_cons_iff.mp hafter
    refine ⟨field, ⟨before ++ between, rest, by simp, isAggregate_iff.mp hfield, ?_⟩, hentry⟩
    intro later hlater hmentions
    have hname : field.columnName = entry.1 := congrArg Prod.fst hentry
    rw [hname]
    apply hback later.entry
    exact List.mem_map_of_mem (List.mem_filter.mpr ⟨hlater, isAggregate_iff.mpr hmentions⟩)
  · rintro ⟨field, ⟨front, back, rfl, hfield, hback⟩, rfl⟩
    rw [List.filter_append, List.filter_cons, if_pos (isAggregate_iff.mpr hfield),
      List.map_append, List.map_cons]
    refine ⟨_, _, rfl, fun entry hentry => ?_⟩
    obtain ⟨later, hlater, rfl⟩ := List.mem_map.mp hentry
    obtain ⟨hmem, haggregate⟩ := List.mem_filter.mp hlater
    exact hback later hmem (isAggregate_iff.mp haggregate)

/-! ## When it is what it ought to be -/

/-- Each column that mentions an aggregating function is followed by a call of its name. -/
def Replaced (fields : List Field) : Prop :=
  ∀ front field back, fields = front ++ field :: back → field.isCall = false → field.Mentions →
    ∃ later ∈ back, later.isCall = true ∧ later.columnName = field.columnName

theorem mem_calls {fields : List Field} {field : Field} :
    field ∈ calls fields ↔ field ∈ fields ∧ field.isCall = true :=
  List.mem_filter

/-- Whether a field is a call can be seen from its entry. -/
theorem Script.Field.isCall_of_entry_eq {field other : Field} (h : field.entry = other.entry) :
    field.isCall = other.isCall :=
  congrArg (fun entry => entry.2.toList.contains '(') h

/-- If columns are replaced by calls, the last mentions are calls. -/
theorem Replaced.isCall_of_lastMention {fields : List Field} (hreplaced : Replaced fields)
    (hcalls : ∀ field ∈ calls fields, field.Mentions) {last : Field}
    (hlast : LastMention fields last) : last.isCall = true := by
  obtain ⟨front, back, rfl, hmentions, hback⟩ := hlast
  by_contra hcolumn
  obtain ⟨later, hlater, hcall, hname⟩ :=
    hreplaced front last back rfl (Bool.not_eq_true _ ▸ hcolumn) hmentions
  have hmem : later ∈ calls (front ++ last :: back) :=
    mem_calls.mpr ⟨List.mem_append_right front (List.mem_cons_of_mem last hlater), hcall⟩
  exact hback later hlater (hcalls later hmem) hname

theorem replaced_of_perm {fields : List Field}
    (hperm : (aggregations fields).entries.Perm ((calls fields).map Field.entry)) :
    Replaced fields := by
  intro front field back hcut hcolumn hmentions
  obtain ⟨last, hlast, hname⟩ :=
    exists_lastMention (List.mem_cons_self : field ∈ field :: back) hmentions
  -- The entry of this last mention is that of a call, so it is a call itself and not the column.
  have hentry : last.entry ∈ (aggregations fields).entries := by
    rw [hcut]
    exact mem_aggregations_iff.mpr ⟨last, hlast.append_left front, rfl⟩
  obtain ⟨call, hcall, hsame⟩ := List.mem_map.mp (hperm.subset hentry)
  have hlastCall : last.isCall = true :=
    (Field.isCall_of_entry_eq hsame).symm.trans (mem_calls.mp hcall).2
  have hne : last ≠ field := by
    rintro rfl
    exact Bool.false_ne_true (hcolumn.symm.trans hlastCall)
  exact ⟨last, (List.mem_cons.mp hlast.mem).resolve_left hne, hlastCall, hname⟩

theorem perm_of_replaced {fields : List Field}
    (hcalls : ∀ field ∈ calls fields, field.Mentions)
    (hnames : ((calls fields).map Field.columnName).Nodup) (hreplaced : Replaced fields) :
    (aggregations fields).entries.Perm ((calls fields).map Field.entry) := by
  have hentries : ((calls fields).map Field.entry).Nodup := by
    refine List.Nodup.of_map Prod.fst ?_
    rwa [List.map_map]
  have haggregations : (aggregations fields).entries.Nodup :=
    List.Nodup.of_map Prod.fst (aggregations fields).nodup
  rw [List.perm_ext_iff_of_nodup haggregations hentries]
  intro entry
  rw [mem_aggregations_iff, List.mem_map]
  constructor
  · rintro ⟨last, hlast, rfl⟩
    exact ⟨last, mem_calls.mpr ⟨hlast.mem, hreplaced.isCall_of_lastMention hcalls hlast⟩, rfl⟩
  · rintro ⟨call, hcall, rfl⟩
    obtain ⟨last, hlast, hname⟩ := exists_lastMention (mem_calls.mp hcall).1 (hcalls call hcall)
    have hlastCall : last ∈ calls fields :=
      mem_calls.mpr ⟨hlast.mem, hreplaced.isCall_of_lastMention hcalls hlast⟩
    obtain rfl := List.inj_on_of_nodup_map hnames hlastCall hcall hname
    exact ⟨last, hlast, rfl⟩

/-- Exactly the calls are aggregated if they have different names and columns are replaced. -/
theorem aggregations_perm_iff {fields : List Field}
    (hcalls : ∀ field ∈ calls fields, field.Mentions) :
    (aggregations fields).entries.Perm ((calls fields).map Field.entry) ↔
      ((calls fields).map Field.columnName).Nodup ∧ Replaced fields := by
  refine ⟨fun hperm => ⟨?_, replaced_of_perm hperm⟩, fun h => perm_of_replaced hcalls h.1 h.2⟩
  have hnames := (hperm.map Prod.fst).nodup (aggregations fields).nodup
  rwa [List.map_map] at hnames

/-! ## The table of a grouped load -/

/-- What a step computes for each group of rows, if it is an aggregation. -/
def Step.aggregations? (step : Step) : Option (Catalog String) :=
  match step.action with
  | .aggregate _ _ _ aggregations => some aggregations
  | _ => none

/-- A grouped load is aggregated once. -/
theorem filterMap_aggregations?_of_tableOf {builder : Builder} {name : String} {load : Load}
    {table : Table} {grouping : List String} (h : builder.tableOf name load = .ok table)
    (hgrouping : load.grouping = some grouping) :
    table.steps.filterMap Step.aggregations? = [aggregations load.fields] := by
  obtain ⟨origin, horigin, rfl⟩ := Spark.exists_originTable h
  have hnone : origin.steps.filterMap Step.aggregations? = [] := by
    rw [List.filterMap_eq_nil_iff]
    intro step hstep
    obtain ⟨source, columns, distinct, haction⟩ := (Spark.originTable_eq_ok horigin).2.1 step hstep
    rw [Step.aggregations?, haction]
  rw [List.filterMap_append, hnone, List.nil_append, Builder.laterSteps, hgrouping]
  cases load.join <;> cases load.condition <;> cases load.distinct <;> rfl

/-- What a load that groups rows records for its fields. -/
structure GroupedRun (fields : List Field) (entries : Catalog String) : Prop where
  /-- The entries are those of the last fields of their names that mention a function. -/
  mem_iff : ∀ entry, entry ∈ entries.entries ↔
    ∃ field, LastMention fields field ∧ field.entry = entry
  names_nodup : entries.names.Nodup
  /-- A call does mention a function. -/
  mentions : ∀ field ∈ calls fields, field.Mentions
  /-- A column and a call on it have the same name, unless an alias is given. -/
  columnName : ∀ field ∈ fields, ∀ column, field.On column → column ≠ [] →
    (∀ c ∈ column, isWord c = true) →
      field.columnName = (present? field.givenName).getD (String.ofList column)
  /-- When each call has an entry, and nothing else has. -/
  perm_iff : entries.entries.Perm ((calls fields).map Field.entry) ↔
    ((calls fields).map Field.columnName).Nodup ∧ Replaced fields

/-- A load that groups rows by columns and aggregates columns is taken in with one aggregation.
It has the last field of each name among those that mention an aggregating function, so it has
exactly the calls if these have different names and no column mentions a function without being
replaced by a call. -/
theorem exists_groupedRun_of_addLoad (builder : Builder) {load : Load} {grouping : List String}
    (hgrouping : load.grouping = some grouping) (hsourced : ¬ load.Unsourced)
    (hfields : ∀ field ∈ load.fields, field.Grouped) :
    ∃ next table entries, builder.addLoad load = .ok next ∧
      next.model.tables.get? (builder.nameFor load).1 = some table ∧
      table.steps.filterMap Step.aggregations? = [entries] ∧ GroupedRun load.fields entries := by
  obtain ⟨next, hnext⟩ : ∃ next, builder.addLoad load = .ok next := by
    cases hadd : builder.addLoad load with
    | ok next => exact ⟨next, rfl⟩
    | error stopped =>
        obtain ⟨refused, hrefused, hunsourced⟩ :=
          (builder.exists_add_eq_error_iff (.load load)).mp ⟨stopped, hadd⟩
        exact absurd (Statement.load.inj hrefused ▸ hunsourced) hsourced
  obtain ⟨table, htable, hmodel⟩ := Builder.addLoad_eq_ok hnext
  have hcalls : ∀ field ∈ calls load.fields, field.Mentions := by
    intro field hfield
    obtain ⟨hmem, hcall⟩ := mem_calls.mp hfield
    exact (hfields field hmem).mentions hcall
  refine ⟨next, table, _, hnext, ?_, filterMap_aggregations?_of_tableOf htable hgrouping, ?_⟩
  · rw [hmodel]
    exact Catalog.get?_put_self _ _ _
  · exact
      { mem_iff := fun _ => mem_aggregations_iff
        names_nodup := Catalog.nodup_names _
        mentions := hcalls
        columnName := fun _ _ _ hon => hon.columnName
        perm_iff := aggregations_perm_iff hcalls }

/-- A load whose grouping column has the name of a function in it. -/
def countryScript : String :=
  "Sales: LOAD country, Sum(amount) as total FROM sales.csv GROUP BY country;"

/-- The load in that script. -/
def countryLoad : Load :=
  ⟨.external, some "Sales", [⟨"country", none, false⟩, ⟨"Sum(amount)", some "total", true⟩],
    some "sales.csv", none, some ["country"], none, none, false, none⟩

theorem exists_groupedRun_of_countryScript :
    readScript countryScript = .ok [.load countryLoad] ∧
      ∃ next table entries, Builder.addLoad {} countryLoad = .ok next ∧
        next.model.tables.get? "Sales" = some table ∧
        table.steps.filterMap Step.aggregations? = [entries] ∧
        GroupedRun countryLoad.fields entries ∧ ("country", "country") ∈ entries.entries ∧
        ¬ entries.entries.Perm [("total", "Sum(amount)")] := by
  have hfields : ∀ field ∈ countryLoad.fields, field.Grouped := by
    intro field hfield
    rcases List.mem_pair.mp hfield with rfl | rfl
    · exact .column (by decide)
    · have hsum : IsAggregator "Sum".toList := ⟨"sum", by decide, by decide⟩
      have hamount : '(' ∉ "amount".toList := by decide
      exact .call hsum Blanks.nil hamount (by decide)
  obtain ⟨next, table, entries, hnext, htable, hentries, hrun⟩ :=
    exists_groupedRun_of_addLoad {} (rfl : countryLoad.grouping = some ["country"])
      (fun hunsourced => nomatch hunsourced.1) hfields
  have hname : Field.columnName ⟨"country", none, false⟩ = "country" :=
    hrun.columnName _ List.mem_cons_self "country".toList (.plain rfl) (by decide)
      (List.all_eq_true.mp (by decide))
  have hcountry : ("country", "country") ∈ entries.entries := by
    refine (hrun.mem_iff _).mpr ⟨⟨"country", none, false⟩, ⟨[], _, rfl, ?_, ?_⟩, ?_⟩
    · exact isAggregate_iff.mp (by decide)
    · intro later hlater _
      obtain rfl := List.mem_singleton.mp hlater
      rw [hname]
      decide
    · rw [Field.entry, hname]
  refine ⟨by decide +kernel, next, table, entries, hnext, htable, hentries, hrun, hcountry, ?_⟩
  intro hperm
  exact absurd (hperm.subset hcountry) (by decide)

end QlikMigration
