import QlikMigration.Proofs.Rewriting
import QlikMigration.Proofs.Runs
import QlikMigration.Proofs.StepChain
import QlikMigration.Script.Expansion

/-!
# Where the text of a model comes from

The source path of a table and the condition of its filter are cut out of a
statement line, and a statement line is put together from parts of the script
with single spaces between them. So a text without spaces that occurs in a path
stands somewhere in the script. A condition has its connectives and operators
replaced besides, and this neither makes nor breaks a text that has no character
of them: a reference such as `$(name)` goes through unchanged.
-/

namespace QlikMigration

open QlikMigration.Text QlikMigration.Script

/-! ## Clauses -/

/-- A search hits at some place of its text. -/
theorem exists_suffix_of_findFirstAfter? {α : Type}
    {recognise : Option Char → List Char → Option α} {prev : Option Char} {cs front : List Char}
    {hit : α} (h : findFirstAfter? recognise prev cs = some (front, hit)) :
    ∃ before rest, rest <:+ cs ∧ recognise before rest = some hit := by
  obtain ⟨rest, rfl, hhit, -⟩ := exists_of_findFirstAfter? h
  exact ⟨_, rest, List.suffix_append front rest, hhit⟩

theorem exists_suffix_of_search? {α : Type} {recognise : List Char → Option α}
    {cs : List Char} {hit : α} (h : search? recognise cs = some hit) :
    ∃ rest, rest <:+ cs ∧ recognise rest = some hit := by
  obtain ⟨⟨front, found⟩, hfound, rfl⟩ := Option.map_eq_some_iff.mp h
  obtain ⟨-, rest, hrest, hhit⟩ := exists_suffix_of_findFirstAfter? hfound
  exact ⟨rest, hrest, hhit⟩

theorem suffix_of_after? {keyword : Keyword} {cs rest : List Char}
    (h : after? keyword cs = some rest) : rest <:+ cs := by
  obtain ⟨found, -, rfl⟩ := afterLetters?_eq_some_iff.mp h
  exact List.suffix_append found rest

theorem suffix_of_afterBlanks? {cs rest : List Char} (h : afterBlanks? cs = some rest) :
    rest <:+ cs := by
  obtain ⟨gap, -, -, -, rfl⟩ := afterBlanks?_eq_some_iff.mp h
  exact List.suffix_append gap rest

theorem suffix_of_afterSpaced? {keyword : Keyword} {cs rest : List Char}
    (h : afterSpaced? keyword cs = some rest) : rest <:+ cs := by
  obtain ⟨middle, hkeyword, hblanks⟩ := Option.bind_eq_some_iff.mp h
  exact (suffix_of_afterBlanks? hblanks).trans (suffix_of_after? hkeyword)

/-- The path in brackets is a part of the line. -/
theorem infix_of_bracketedSource? {line path : List Char} (h : bracketedSource? line = some path) :
    path <:+: line := by
  obtain ⟨cs, hcs, hhit⟩ := exists_suffix_of_search? h
  obtain ⟨rest, hrest, hpath⟩ := Option.bind_eq_some_iff.mp hhit
  obtain ⟨body, hbody, hpath⟩ := Option.bind_eq_some_iff.mp hpath
  have hprefix := upTo?_isPrefix (Option.filter_eq_some_iff.mp hpath).1
  have hbracket : body <:+ rest := ⟨['['], List.append_eq_of_isPrefixOf?_eq_some hbody⟩
  exact hprefix.isInfix.trans
    ((hbracket.trans (suffix_of_afterSpaced? hrest)).trans hcs).isInfix

/-- The characters of a class after a keyword are a part of the line. -/
theorem infix_of_runAfter? {keyword : Keyword} {p : Char → Bool} {line run : List Char}
    (h : runAfter? keyword p line = some run) : run <:+: line := by
  obtain ⟨cs, hcs, hhit⟩ := exists_suffix_of_search? h
  obtain ⟨rest, hrest, hrun⟩ := Option.bind_eq_some_iff.mp hhit
  dsimp only at hrun
  split at hrun
  · cases hrun
  · cases hrun
    exact (List.takeWhile_prefix p).isInfix.trans ((suffix_of_afterSpaced? hrest).trans hcs).isInfix

/-- The source of a load is a part of its line. -/
theorem infix_of_readOrigin {line : List Char} {source : String}
    (h : (readOrigin line).source = some source) : source.toList <:+: line := by
  unfold readOrigin at h
  split_ifs at h
  · obtain ⟨path, hpath, rfl⟩ := Option.map_eq_some_iff.mp h
    rw [String.toList_ofList]
    exact infix_of_bracketedSource? hpath
  · obtain ⟨run, hrun, rfl⟩ := Option.map_eq_some_iff.mp h
    rw [String.toList_ofList]
    exact infix_of_runAfter? hrun
  · obtain ⟨run, hrun, rfl⟩ := Option.map_eq_some_iff.mp h
    rw [String.toList_ofList]
    exact infix_of_runAfter? hrun

theorem forall_mem_of_runAfter? {keyword : Keyword} {p : Char → Bool} {line run : List Char}
    (h : runAfter? keyword p line = some run) : ∀ c ∈ run, p c = true := by
  obtain ⟨cs, -, hhit⟩ := exists_suffix_of_search? h
  obtain ⟨rest, -, hrun⟩ := Option.bind_eq_some_iff.mp hhit
  dsimp only at hrun
  split at hrun
  · cases hrun
  · cases hrun
    exact fun c hc => List.mem_takeWhile_imp hc

/-- Without brackets, the source of a load ends before a dollar sign. -/
theorem dollar_not_mem_of_readOrigin {line : List Char} {source : String}
    (hbracket : hasBracketedSource line = false) (h : (readOrigin line).source = some source) :
    '$' ∉ source.toList := by
  rw [readOrigin, hbracket, if_neg Bool.false_ne_true] at h
  split_ifs at h
  · obtain ⟨run, hrun, rfl⟩ := Option.map_eq_some_iff.mp h
    rw [String.toList_ofList]
    exact fun hmem => absurd (forall_mem_of_runAfter? hrun '$' hmem) (by decide)
  · obtain ⟨run, hrun, rfl⟩ := Option.map_eq_some_iff.mp h
    rw [String.toList_ofList]
    exact fun hmem => absurd (forall_mem_of_runAfter? hrun '$' hmem) (by decide)

/-- The condition of a load is a part of its line. -/
theorem infix_of_readCondition? {line condition : List Char}
    (h : readCondition? line = some condition) : condition <:+: line := by
  obtain ⟨found, hfound, rfl⟩ := Option.map_eq_some_iff.mp h
  obtain ⟨⟨front, hit⟩, hhit, rfl⟩ := Option.map_eq_some_iff.mp hfound
  obtain ⟨before, cs, hcs, hrecognised⟩ := exists_suffix_of_findFirstAfter? hhit
  split at hrecognised
  · obtain ⟨rest, hrest, hbody⟩ := Option.bind_eq_some_iff.mp hrecognised
    obtain ⟨body, hblanks, htext⟩ := Option.bind_eq_some_iff.mp hbody
    exact (trim_isInfix _).trans ((upTo?_isPrefix htext).isInfix.trans
      (((suffix_of_afterBlanks? hblanks).trans (suffix_of_after? hrest)).trans hcs).isInfix)
  · cases hrecognised

/-! ## Replacing around a part -/

section Replacing

variable {part pattern replacement cs : List Char}

/-- A text is empty, or it goes on after a character at which a pattern does not stand, or
it goes on after the pattern. -/
theorem replace_induction {motive : List Char → Prop} (hne : pattern ≠ []) (nil : motive [])
    (kept : ∀ c rest, pattern.isPrefixOf (c :: rest) = false → motive rest → motive (c :: rest))
    (replaced : ∀ rest, motive rest → motive (pattern ++ rest)) (cs : List Char) : motive cs := by
  match cs with
  | [] => exact nil
  | c :: rest =>
      cases hstarts : pattern.isPrefixOf (c :: rest) with
      | false => exact kept c rest hstarts (replace_induction hne nil kept replaced rest)
      | true =>
          obtain ⟨tail, hcs⟩ := List.isPrefixOf_iff_prefix.mp hstarts
          have hshorter : tail.length < (c :: rest).length := by
            rw [← hcs, List.length_append]
            exact Nat.lt_add_of_pos_left (List.length_pos_iff.mpr hne)
          rw [← hcs]
          exact replaced tail (replace_induction hne nil kept replaced tail)
termination_by cs.length
decreasing_by
  · exact Nat.lt_succ_self rest.length
  · exact hshorter

/-- Replacing a pattern does not reach into a part: the pattern begins and ends with
characters that the part does not have, and the part has one that the pattern does not
have. The replacement has no character of the part. -/
structure Apart (part pattern replacement : List Char) : Prop where
  first : ∃ c ∈ pattern.head?, c ∉ part
  last : ∃ c ∈ pattern.getLast?, c ∉ part
  foreign : ∃ c ∈ part, c ∉ pattern
  nonempty : replacement ≠ []
  fresh : ∀ c ∈ replacement, c ∉ part

theorem Apart.ne_nil (h : Apart part pattern replacement) : part ≠ [] := by
  obtain ⟨c, hc, -⟩ := h.foreign
  exact List.ne_nil_of_mem hc

theorem Apart.pattern_ne_nil (h : Apart part pattern replacement) : pattern ≠ [] := by
  obtain ⟨c, hc, -⟩ := h.first
  exact List.ne_nil_of_mem (List.mem_of_mem_head? hc)

/-- A text that begins with a part after replacing did so before, if the replacement begins with
none of the characters of the part. -/
theorem prefix_of_prefix_replace (hne : pattern ≠ []) (hreplacement : replacement ≠ [])
    (hfresh : ∀ c ∈ replacement.head?, c ∉ part) (h : part <+: replace pattern replacement cs) :
    part <+: cs := by
  induction cs using replace_induction hne generalizing part with
  | nil => exact h
  | kept c rest hstarts ih =>
      rw [Spark.replace_cons hstarts] at h
      rcases List.prefix_cons_iff.mp h with rfl | ⟨part, rfl, hpart⟩
      · exact List.nil_prefix
      · refine List.cons_prefix_cons.mpr ⟨rfl, ih (fun d hd hmem => ?_) hpart⟩
        exact hfresh d hd (List.mem_cons_of_mem c hmem)
  | replaced rest ih =>
      rw [Spark.replace_self_append hne] at h
      obtain ⟨d, later, rfl⟩ := List.exists_cons_of_ne_nil hreplacement
      rcases List.prefix_cons_iff.mp h with rfl | ⟨part, rfl, -⟩
      · exact List.nil_prefix
      · exact absurd List.mem_cons_self (hfresh d rfl)

/-- A part that has none of the characters of a text stands behind it. -/
theorem infix_of_infix_append {front back : List Char} (hne : part ≠ [])
    (hfront : ∀ c ∈ front, c ∉ part) (h : part <:+: front ++ back) : part <:+: back := by
  induction front with
  | nil => exact h
  | cons c front ih =>
      have hlater : part <:+: front ++ back := by
        rcases infix_or_infix_of_not_mem (hfront c List.mem_cons_self)
          (show part <:+: [] ++ c :: (front ++ back) from h) with hnil | hrest
        · exact absurd (List.infix_nil.mp hnil) hne
        · exact hrest
      exact ih (fun d hd => hfront d (List.mem_cons_of_mem c hd)) hlater

/-- A part stands in a text after replacing exactly if it did before. -/
theorem infix_replace_iff (h : Apart part pattern replacement) :
    part <:+: replace pattern replacement cs ↔ part <:+: cs := by
  have hne := h.pattern_ne_nil
  induction cs using replace_induction hne with
  | nil => exact Iff.rfl
  | kept c rest hstarts ih =>
      constructor
      · intro hpart
        rw [Spark.replace_cons hstarts, List.infix_cons_iff, ← Spark.replace_cons hstarts] at hpart
        rcases hpart with hhere | hlater
        · have hfresh : ∀ d ∈ replacement.head?, d ∉ part :=
            fun d hd => h.fresh d (List.mem_of_mem_head? hd)
          exact (prefix_of_prefix_replace hne h.nonempty hfresh hhere).isInfix
        · exact (ih.mp hlater).trans (List.suffix_cons c rest).isInfix
      · intro hpart
        rcases List.infix_cons_iff.mp hpart with ⟨tail, htail⟩ | hlater
        · obtain ⟨d, hd, hforeign⟩ := h.first
          obtain ⟨later, rfl⟩ := List.head?_eq_some_iff.mp hd
          rw [← htail, Spark.replace_append_of_not_mem hforeign]
          exact (List.prefix_append _ _).isInfix
        · rw [Spark.replace_cons hstarts]
          exact (ih.mpr hlater).trans (List.suffix_cons c _).isInfix
  | replaced rest ih =>
      rw [Spark.replace_self_append hne]
      constructor
      · intro hpart
        exact (ih.mp (infix_of_infix_append h.ne_nil h.fresh hpart)).trans
          (List.suffix_append pattern rest).isInfix
      · intro hpart
        -- The part cannot overlap the pattern, so it stands in the rest.
        obtain ⟨d, hd, hlast⟩ := h.last
        obtain ⟨front, rfl⟩ := List.getLast?_eq_some_iff.mp hd
        rw [List.append_assoc] at hpart
        rcases infix_or_infix_of_not_mem hlast hpart with hfront | hrest
        · obtain ⟨e, he, hforeign⟩ := h.foreign
          exact absurd (List.mem_append_left [d] (hfront.subset he)) hforeign
        · exact (ih.mpr hrest).trans (List.suffix_append replacement _).isInfix

theorem replaceChar_eq_replace (c : Char) (replacement cs : List Char) :
    replaceChar c replacement cs = replace [c] replacement cs := by
  induction cs with
  | nil => rfl
  | cons d cs ih =>
      rw [replaceChar, List.flatMap_cons, ← replaceChar, ih]
      by_cases hd : d = c
      · rw [if_pos hd, hd]
        exact (Spark.replace_self_append (List.cons_ne_nil c []) cs).symm
      · rw [if_neg hd, Spark.replace_cons]
        · rfl
        · simp [List.isPrefixOf, Ne.symm hd]

end Replacing

/-! ## References in conditions -/

section References

variable {name : String}

/-- The characters of the connectives and operators that converting a condition puts in,
and those at the borders of what it replaces. -/
def conditionMarks : List Char :=
  [' ', '=', '<', '>', '&', '|', '~', '!']

theorem not_mem_referenceTo (hname : ∀ c ∈ name.toList, isWord c = true) {c : Char}
    (hc : c ∈ conditionMarks) : c ∉ referenceTo name := by
  have hmarks : ∀ c ∈ conditionMarks, (!isWord c && !(['$', '(', ')'].contains c)) = true :=
    List.all_eq_true.mp (by decide)
  obtain ⟨hword, hother⟩ : isWord c = false ∧ c ∉ ['$', '(', ')'] := by
    simpa using hmarks c hc
  intro hmem
  rcases List.mem_append.mp hmem with hfront | hback
  · rcases List.mem_cons.mp hfront with rfl | hrest
    · exact hother (by decide)
    · rcases List.mem_cons.mp hrest with rfl | hletter
      · exact hother (by decide)
      · exact ne_of_isWord (hname c hletter) hword rfl
  · obtain rfl := List.mem_singleton.mp hback
    exact hother (by decide)

/-- Whether a pattern without a dollar sign has marks at both borders and is replaced by
marks. -/
def replacesMarks (pattern replacement : List Char) : Bool :=
  pattern.head?.any conditionMarks.contains && pattern.getLast?.any conditionMarks.contains &&
    !pattern.contains '$' && !replacement.isEmpty && replacement.all conditionMarks.contains

theorem apart_referenceTo (hname : ∀ c ∈ name.toList, isWord c = true)
    {pattern replacement : List Char} (h : replacesMarks pattern replacement = true) :
    Apart (referenceTo name) pattern replacement := by
  simp only [replacesMarks, Bool.and_eq_true, Option.any_eq_true, List.contains_iff_mem,
    Bool.not_eq_true', List.isEmpty_eq_false_iff, List.all_eq_true] at h
  obtain ⟨⟨⟨⟨⟨first, hfirst, hfirstMark⟩, last, hlast, hlastMark⟩, hdollar⟩, hne⟩, hmarks⟩ := h
  refine ⟨⟨first, hfirst, not_mem_referenceTo hname hfirstMark⟩,
    ⟨last, hlast, not_mem_referenceTo hname hlastMark⟩,
    ⟨'$', List.mem_cons_self, by simpa using hdollar⟩, hne,
    fun c hc => not_mem_referenceTo hname (hmarks c hc)⟩

/-- A reference stands in a converted condition exactly if it stands in the condition. -/
theorem infix_convertCondition_iff (hname : ∀ c ∈ name.toList, isWord c = true)
    {condition : List Char} :
    referenceTo name <:+: convertCondition condition ↔ referenceTo name <:+: condition := by
  simp only [convertCondition, replaceChar_eq_replace]
  rw [infix_replace_iff (apart_referenceTo hname (by decide)),
    infix_replace_iff (apart_referenceTo hname (by decide)),
    infix_replace_iff (apart_referenceTo hname (by decide)),
    infix_replace_iff (apart_referenceTo hname (by decide)),
    infix_replace_iff (apart_referenceTo hname (by decide))]

end References

/-! ## Loads and tables -/

/-- The condition of a filter. -/
def Action.condition? : Action → Option String
  | .filter _ _ condition => some condition
  | _ => none

/-- The conditions of the filters of a table. -/
def Table.conditions (table : Table) : List String :=
  table.steps.filterMap fun step => step.action.condition?

/-- A load has a text in its source or in its condition. -/
def Script.Load.Mentions (load : Load) (part : List Char) : Prop :=
  (∃ source ∈ load.source, part <:+: source.toList) ∨
    ∃ condition ∈ load.condition, part <:+: condition.toList

/-- A table has a text in its source path or in the condition of a filter. -/
def Table.Mentions (table : Table) (part : List Char) : Prop :=
  (∃ path ∈ table.sourcePath, part <:+: path.toList) ∨
    ∃ condition ∈ table.conditions, part <:+: condition.toList

section Tables

variable {builder : Builder} {name : String} {load : Load} {table : Table}

/-- The condition of a load is converted and becomes the one filter of its table. -/
theorem conditions_of_tableOf (h : builder.tableOf name load = .ok table) :
    table.conditions =
      (load.condition.map fun text => String.ofList (convertCondition text.toList)).toList := by
  unfold Builder.tableOf at h
  cases horigin : builder.originTable name load with
  | error cause =>
      rw [horigin] at h
      cases h
  | ok origin =>
      obtain ⟨-, hselects, -⟩ := Spark.originTable_eq_ok horigin
      rw [horigin] at h
      cases h
      have hnone : origin.steps.filterMap (fun step => step.action.condition?) = [] := by
        rw [List.filterMap_eq_nil_iff]
        intro step hstep
        obtain ⟨source, columns, distinct, haction⟩ := hselects step hstep
        rw [haction]
        rfl
      show (origin.steps ++ builder.laterSteps name load origin.columns).filterMap _ = _
      rw [List.filterMap_append, hnone, List.nil_append]
      simp only [Builder.laterSteps, List.filterMap_append]
      cases load.join <;> cases load.condition <;> cases load.grouping <;> cases load.distinct <;>
        rfl

/-- The table of a load mentions a reference exactly if the load does. -/
theorem mentions_tableOf_iff {variableName : String}
    (hvariable : ∀ c ∈ variableName.toList, isWord c = true)
    (hkind : load.kind = .external ∨ load.kind = .resident ∨ load.source = none)
    (h : builder.tableOf name load = .ok table) :
    table.Mentions (referenceTo variableName) ↔ load.Mentions (referenceTo variableName) := by
  obtain ⟨-, -, hpath⟩ := Spark.tableOf_eq_ok h
  rw [Table.Mentions, Load.Mentions, hpath hkind, conditions_of_tableOf h]
  apply or_congr_right
  cases load.condition with
  | none => simp
  | some condition => simp [infix_convertCondition_iff hvariable]

end Tables

/-! ## Scripts -/

/-- A load that is read from a line mentions parts of the line only. -/
theorem infix_of_load_mentions {line part : List Char} {load : Load}
    (hline : readLine line = .ok (some (.load load))) (h : load.Mentions part) :
    part <:+: line := by
  have hread := readLoad_of_readLine hline
  rw [readLoad] at hread
  cases hjoin : readJoin line with
  | error error =>
      rw [hjoin] at hread
      cases hread
  | ok join =>
      rw [hjoin] at hread
      cases hread
      rcases h with ⟨source, hsource, hpart⟩ | ⟨condition, hcondition, hpart⟩
      · exact hpart.trans (infix_of_readOrigin hsource)
      · obtain ⟨text, htext, rfl⟩ := Option.map_eq_some_iff.mp hcondition
        rw [String.toList_ofList] at hpart
        exact hpart.trans (infix_of_readCondition? htext)

/-- A reference that a table of a script's model mentions stands in the script. -/
theorem infix_of_table_mentions {script name variableName : String} {model : DataModel}
    {table : Table} (hvariable : ∀ c ∈ variableName.toList, isWord c = true)
    (hmodel : DataModel.ofScript script = .ok model)
    (htable : model.tables.get? name = some table)
    (h : table.Mentions (referenceTo variableName)) :
    referenceTo variableName <:+: script.toList := by
  obtain ⟨before, load, line, hline, hstatement, -, hdefined⟩ :=
    DataModel.exists_line_of_get? hmodel htable
  have hmentions := (mentions_tableOf_iff hvariable (Spark.kind_of_readLine hstatement)
    hdefined).mp h
  exact infix_of_mem_statementLines (not_mem_referenceTo hvariable (by decide)) hline
    (infix_of_load_mentions hstatement hmentions)

end QlikMigration
