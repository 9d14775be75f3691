import QlikMigration.Proofs.Assignments
import QlikMigration.Proofs.Rewriting
import QlikMigration.Script.Expansion

/-!
# Expanding all variables at once

Variables are expanded one after the other, each in a text that the others before
it have already changed. In general the order matters: a value may bring in a
reference, and a value with a backslash may bring in the reference to itself.

If no value has a dollar sign or a backslash, the variables do not get in each
other's way. A text of plain parts and references stays one while it is
expanded. Each variable turns its own references into plain parts and leaves the
others alone, so in the end every reference is replaced as if all had been
replaced at once.
-/

namespace QlikMigration.Script

open QlikMigration.Text

/-! ## Texts with references -/

/-- A part of a text: plain characters, or a reference to a variable. -/
inductive Segment
  | plain (cs : List Char)
  | reference (name : String)

namespace Segment

/-- A segment as it is written. -/
def text : Segment → List Char
  | plain cs => cs
  | reference name => referenceTo name

/-- Plain characters have no dollar sign, and a reference names a word. -/
def IsProper : Segment → Prop
  | plain cs => '$' ∉ cs
  | reference name => ∀ c ∈ name.toList, isWord c = true

/-- A segment with the value of its variable, if there is one, in place of a reference. -/
def expand (value? : String → Option String) : Segment → Segment
  | plain cs => plain cs
  | reference name =>
    match value? name with
    | some value => plain value.toList
    | none => reference name

end Segment

/-- The text of segments. -/
def textOf (segments : List Segment) : List Char :=
  segments.flatMap Segment.text

theorem textOf_cons (segment : Segment) (segments : List Segment) :
    textOf (segment :: segments) = segment.text ++ textOf segments :=
  List.flatMap_cons

/-- The value that only one variable has. -/
def onlyValue? (name value : String) (other : String) : Option String :=
  if other = name then some value else none

/-- The value of the first entry under a name. -/
def firstValue? (entries : List (String × String)) (name : String) : Option String :=
  (entries.find? fun entry => entry.1 == name).map Prod.snd

namespace Segment

variable {segment : Segment} {value? : String → Option String}

theorem expand_expand : (segment.expand value?).expand value? = segment.expand value? := by
  cases segment with
  | plain cs => rfl
  | reference name =>
      cases hvalue : value? name with
      | some value => simp [expand, hvalue]
      | none => simp [expand, hvalue]

theorem IsProper.expand (h : segment.IsProper)
    (hvalue : ∀ name value, value? name = some value → '$' ∉ value.toList) :
    (segment.expand value?).IsProper := by
  cases segment with
  | plain cs => exact h
  | reference name =>
      rw [Segment.expand]
      split
      · next value hfound => exact hvalue name value hfound
      · exact h

/-- Expanding one variable and then the others is expanding all of them. -/
theorem expand_cons (name value : String) (entries : List (String × String)) :
    (segment.expand (onlyValue? name value)).expand (firstValue? entries) =
      segment.expand (firstValue? ((name, value) :: entries)) := by
  cases segment with
  | plain cs => rfl
  | reference other =>
      by_cases hother : other = name
      · subst hother
        simp [expand, onlyValue?, firstValue?]
      · have hname : (name == other) = false := beq_eq_false_iff_ne.mpr (Ne.symm hother)
        simp [expand, onlyValue?, firstValue?, hother, hname]

end Segment

/-! ## One variable -/

section Variable

variable {name value : String}

/-- A reference stands at the start of another one only if the two are the same. -/
theorem isPrefixOf_referenceTo {other : String} (hname : ∀ c ∈ name.toList, isWord c = true)
    (hother : ∀ c ∈ other.toList, isWord c = true) (hne : other ≠ name) (rest : List Char) :
    (referenceTo name).isPrefixOf (referenceTo other ++ rest) = false := by
  have hclosing : startsWord (')' :: rest) = false := rfl
  have hstarts :=
    Spark.isPrefixOf_word_append hname hother (by decide : isWord ')' = false) hclosing
  have hcut : (referenceTo name).isPrefixOf (referenceTo other ++ rest) =
      (name.toList ++ [')']).isPrefixOf (other.toList ++ ')' :: rest) := by
    simp [referenceTo, List.isPrefixOf]
  rw [hcut, Bool.eq_false_iff, Ne, hstarts]
  rintro ⟨heq, -⟩
  exact hne (String.toList_inj.mp heq).symm

/-- A reference to another variable is passed over. -/
theorem replace_other_reference {other : String} (hname : ∀ c ∈ name.toList, isWord c = true)
    (hother : ∀ c ∈ other.toList, isWord c = true) (hne : other ≠ name)
    (replacement rest : List Char) :
    replace (referenceTo name) replacement (referenceTo other ++ rest) =
      referenceTo other ++ replace (referenceTo name) replacement rest := by
  have hstarts := isPrefixOf_referenceTo hname hother hne rest
  have hdollar : '$' ∉ other.toList := fun hmem => absurd (hother '$' hmem) (by decide)
  have hinside : '$' ∉ '(' :: other.toList ++ [')'] := by simp [hdollar]
  have hcut : referenceTo other ++ rest = '$' :: ('(' :: other.toList ++ [')'] ++ rest) := rfl
  have hpattern : referenceTo name = '$' :: ('(' :: name.toList ++ [')']) := rfl
  rw [hcut] at hstarts ⊢
  rw [Spark.replace_cons hstarts, hpattern, Spark.replace_append_of_not_mem hinside]
  rfl

/-- The references to a variable are replaced, and all else is kept. -/
theorem replace_textOf (hname : ∀ c ∈ name.toList, isWord c = true) {segments : List Segment}
    (h : ∀ segment ∈ segments, segment.IsProper) :
    replace (referenceTo name) value.toList (textOf segments) =
      textOf (segments.map (Segment.expand (onlyValue? name value))) := by
  induction segments with
  | nil => rfl
  | cons segment segments ih =>
      obtain ⟨hsegment, hsegments⟩ := List.forall_mem_cons.mp h
      rw [textOf_cons, List.map_cons, textOf_cons, ← ih hsegments]
      cases segment with
      | plain cs => exact Spark.replace_append_of_not_mem hsegment _
      | reference other =>
          rw [Segment.expand, onlyValue?]
          by_cases hother : other = name
          · rw [if_pos hother, hother]
            exact Spark.replace_self_append (List.cons_ne_nil _ _) _
          · rw [if_neg hother]
            exact replace_other_reference hname hsegment hother _ _

theorem forall_isProper_expand (name : String) (hvalue : '$' ∉ value.toList)
    {segments : List Segment} (h : ∀ segment ∈ segments, segment.IsProper) :
    ∀ segment ∈ segments.map (Segment.expand (onlyValue? name value)), segment.IsProper := by
  refine List.forall_mem_map.mpr fun segment hsegment => (h segment hsegment).expand ?_
  intro other found hfound
  obtain ⟨-, hsome⟩ := Option.ite_none_right_eq_some.mp hfound
  exact Option.some.inj hsome ▸ hvalue

/-- A variable without a dollar sign or a backslash in its value is expanded everywhere. -/
theorem expandVariable_textOf (hname : ∀ c ∈ name.toList, isWord c = true)
    (hvalue : '$' ∉ value.toList ∧ '\\' ∉ value.toList) {segments : List Segment}
    (h : ∀ segment ∈ segments, segment.IsProper) :
    expandVariable name value (textOf segments) =
      .ok (textOf (segments.map (Segment.expand (onlyValue? name value)))) := by
  have hproper := forall_isProper_expand name hvalue.1 h
  have hbackslash : value.toList.contains '\\' = false := by simpa using hvalue.2
  -- The second pass finds no reference that the first has left.
  have htwice : (segments.map (Segment.expand (onlyValue? name value))).map
      (Segment.expand (onlyValue? name value)) =
        segments.map (Segment.expand (onlyValue? name value)) := by
    rw [List.map_map]
    exact List.map_congr_left fun _ _ => Segment.expand_expand
  simp only [expandVariable, hbackslash, Bool.false_eq_true, if_false, replace_textOf hname h,
    replace_textOf hname hproper, htwice]

end Variable

/-! ## All variables -/

/-- Variables that can be expanded in any order: their names are words, and their values have
neither dollar signs nor backslashes. -/
def Variables.Independent (bindings : Variables) : Prop :=
  ∀ entry ∈ bindings.entries, (∀ c ∈ entry.1.toList, isWord c = true) ∧
    '$' ∉ entry.2.toList ∧ '\\' ∉ entry.2.toList

theorem expand_firstValue?_nil (segment : Segment) :
    segment.expand (firstValue? []) = segment := by
  cases segment <;> rfl

/-- Independent variables are expanded as if all were expanded at once. -/
theorem expandVariables_textOf {bindings : Variables} (hbindings : bindings.Independent)
    {segments : List Segment} (h : ∀ segment ∈ segments, segment.IsProper) :
    expandVariables bindings (String.ofList (textOf segments)) =
      .ok (String.ofList (textOf (segments.map (Segment.expand (Catalog.get? bindings))))) := by
  have hrun : bindings.entries.foldlM (fun cs entry => expandVariable entry.1 entry.2 cs)
      (textOf segments) =
        .ok (textOf (segments.map (Segment.expand (firstValue? bindings.entries)))) := by
    rw [Variables.Independent] at hbindings
    generalize bindings.entries = entries at hbindings
    induction entries generalizing segments with
    | nil =>
        rw [List.map_congr_left fun segment _ => expand_firstValue?_nil segment, List.map_id']
        rfl
    | cons entry entries ih =>
        obtain ⟨⟨hname, hvalue⟩, hlater⟩ := List.forall_mem_cons.mp hbindings
        have hproper := forall_isProper_expand entry.1 hvalue.1 h
        have hall : (segments.map (Segment.expand (onlyValue? entry.1 entry.2))).map
            (Segment.expand (firstValue? entries)) =
              segments.map (Segment.expand (firstValue? (entry :: entries))) := by
          rw [List.map_map]
          exact List.map_congr_left fun _ _ => Segment.expand_cons entry.1 entry.2 entries
        rw [List.foldlM_cons, expandVariable_textOf hname hvalue h, ← hall]
        exact ih hproper hlater
  rw [expandVariables, String.toList_ofList, hrun]
  rfl

/-! ## Readers -/

/-- A name that is assigned is a word. -/
theorem isWord_of_readAssignment? {line : List Char} {assignment : Assignment}
    (h : readAssignment? line = some assignment) :
    ∀ c ∈ assignment.name.toList, isWord c = true := by
  obtain ⟨⟨evaluated, behind⟩, -, hbehind⟩ := Option.bind_eq_some_iff.mp h
  obtain ⟨rest, -, hrest⟩ := Option.bind_eq_some_iff.mp hbehind
  obtain ⟨value, -, hvalue⟩ := Option.bind_eq_some_iff.mp hrest
  split at hvalue
  · cases hvalue
  · cases hvalue
    rw [String.toList_ofList]
    exact fun c hc => List.mem_takeWhile_imp hc

theorem isWord_of_readLine {line : List Char} {assignment : Assignment}
    (h : readLine line = .ok (some (.assign assignment))) :
    ∀ c ∈ assignment.name.toList, isWord c = true := by
  rw [readLine] at h
  split at h
  · obtain ⟨read, hread, heq⟩ := Option.map_eq_some_iff.mp (Except.ok.inj h)
    cases heq
    exact isWord_of_readAssignment? hread
  · split at h
    · cases h
    · split at h
      · cases hload : readLoad line with
        | error error =>
            rw [hload] at h
            cases h
        | ok load =>
            rw [hload] at h
            cases h
      · cases h

theorem exists_readLine_of_mem_statementsBefore {lines : List (List Char)} {statement : Statement}
    (h : statement ∈ statementsBefore lines) : ∃ line, readLine line = .ok (some statement) := by
  induction lines with
  | nil => cases h
  | cons line rest ih =>
      rw [statementsBefore] at h
      cases hline : readLine line with
      | error error =>
          rw [hline] at h
          cases h
      | ok result =>
          rw [hline] at h
          rcases List.mem_append.mp h with hhere | hlater
          · exact ⟨line, hline.trans (congrArg Except.ok (Option.mem_toList.mp hhere))⟩
          · exact ih hlater

theorem isWord_of_mem_assignedBy {script : String} {entry : String × String}
    (h : entry ∈ assignedBy script) : ∀ c ∈ entry.1.toList, isWord c = true := by
  obtain ⟨statement, hstatement, hentry⟩ := List.mem_filterMap.mp h
  obtain ⟨line, hline⟩ := exists_readLine_of_mem_statementsBefore hstatement
  cases statement with
  | load load => cases hentry
  | mapping load => cases hentry
  | assign assignment =>
      cases hentry
      exact isWord_of_readLine hline

/-- The value that a name is given last. -/
def lastValue? (entries : List (String × String)) (name : String) : Option String :=
  (entries.reverse.find? fun entry => entry.1 == name).map Prod.snd

theorem get?_ofList_eq_lastValue? (entries : List (String × String)) :
    (Catalog.ofList entries).get? = lastValue? entries := by
  funext name
  rw [Catalog.get?_ofList, List.getLast?_filter, lastValue?]

/-- The variables after scripts are independent, if no value that is left has a dollar sign or a
backslash. -/
theorem independent_afterReading {scripts : List String}
    (h : ∀ name value, lastValue? (scripts.flatMap assignedBy) name = some value →
      '$' ∉ value.toList ∧ '\\' ∉ value.toList) :
    (scripts.foldl Reader.afterReading Reader.start).bindings.Independent := by
  rw [Reader.bindings_foldl_afterReading]
  intro entry hentry
  obtain ⟨script, -, hassigned⟩ := List.mem_flatMap.mp (Catalog.mem_of_mem_ofList hentry)
  refine ⟨isWord_of_mem_assignedBy hassigned, h entry.1 entry.2 ?_⟩
  rw [← get?_ofList_eq_lastValue?]
  exact Catalog.get?_eq_some_iff.mpr hentry

theorem mem_of_lastValue? {entries : List (String × String)} {name value : String}
    (h : lastValue? entries name = some value) : (name, value) ∈ entries := by
  rw [← get?_ofList_eq_lastValue?] at h
  exact Catalog.mem_of_mem_ofList (Catalog.get?_eq_some_iff.mp h)

/-- After scripts that assign no value with a dollar sign or a backslash, a text is expanded at
once: every reference to a variable that was assigned gives way to the value assigned last, and
all else stays. So the result depends on the last values alone, not on the order in which the
variables came up. -/
theorem expandVariables_of_afterReading {scripts : List String}
    (hvalues : ∀ entry ∈ scripts.flatMap assignedBy,
      '$' ∉ entry.2.toList ∧ '\\' ∉ entry.2.toList)
    {segments : List Segment} (hsegments : ∀ segment ∈ segments, segment.IsProper) :
    expandVariables (scripts.foldl Reader.afterReading Reader.start).bindings
        (String.ofList (textOf segments)) =
      .ok (String.ofList (textOf (segments.map
        (Segment.expand (lastValue? (scripts.flatMap assignedBy)))))) ∧
    ∀ others : List String,
      (∀ name, lastValue? (others.flatMap assignedBy) name =
        lastValue? (scripts.flatMap assignedBy) name) →
      expandVariables (others.foldl Reader.afterReading Reader.start).bindings
          (String.ofList (textOf segments)) =
        expandVariables (scripts.foldl Reader.afterReading Reader.start).bindings
          (String.ofList (textOf segments)) := by
  have hlast : ∀ name value, lastValue? (scripts.flatMap assignedBy) name = some value →
      '$' ∉ value.toList ∧ '\\' ∉ value.toList :=
    fun name value hvalue => hvalues (name, value) (mem_of_lastValue? hvalue)
  -- The same holds of all scripts that leave these values behind.
  have hexpand : ∀ others : List String,
      (∀ name, lastValue? (others.flatMap assignedBy) name =
        lastValue? (scripts.flatMap assignedBy) name) →
      expandVariables (others.foldl Reader.afterReading Reader.start).bindings
          (String.ofList (textOf segments)) =
        .ok (String.ofList (textOf (segments.map
          (Segment.expand (lastValue? (scripts.flatMap assignedBy)))))) := by
    intro others hsame
    have hindependent : (others.foldl Reader.afterReading Reader.start).bindings.Independent :=
      independent_afterReading fun name value hvalue => hlast name value (hsame name ▸ hvalue)
    rw [expandVariables_textOf hindependent hsegments, Reader.bindings_foldl_afterReading,
      get?_ofList_eq_lastValue?, funext hsame]
  refine ⟨hexpand scripts fun _ => rfl, fun others hsame => ?_⟩
  rw [hexpand others hsame, hexpand scripts fun _ => rfl]

/-- Two scripts, of which the second cannot be read to its end. -/
def folderScripts : List String :=
  ["SET dir = raw;\nLET n = 1;\nSET dir = clean;",
    "SET kind = (qvd);\nJOIN LOAD a;\nLET lost = 4;"]

/-- Scripts that leave the same variables behind in another order. -/
def reorderedScripts : List String :=
  ["SET kind = (qvd);", "LET n = 1;\nSET dir = clean;"]

def folderSegments : List Segment :=
  [.reference "dir", .plain ['/'], .reference "n", .reference "lost", .reference "kind"]

/-- A variable is replaced by its last value, and one that was not reached stays a reference. -/
theorem expandVariables_of_folderScripts :
    (folderScripts.foldl Reader.afterReading Reader.start).bindings.names = ["dir", "n", "kind"] ∧
      expandVariables (folderScripts.foldl Reader.afterReading Reader.start).bindings
        "$(dir)/$(n)$(lost)$(kind)" = .ok "clean/1$(lost)(qvd)" ∧
      (reorderedScripts.foldl Reader.afterReading Reader.start).bindings.names =
        ["kind", "n", "dir"] ∧
      expandVariables (reorderedScripts.foldl Reader.afterReading Reader.start).bindings
        "$(dir)/$(n)$(lost)$(kind)" = .ok "clean/1$(lost)(qvd)" := by
  have hassigned : folderScripts.flatMap assignedBy =
      [("dir", "raw"), ("n", "1"), ("dir", "clean"), ("kind", "(qvd)")] := by
    decide +kernel
  have hreordered : reorderedScripts.flatMap assignedBy =
      [("kind", "(qvd)"), ("n", "1"), ("dir", "clean")] := by
    decide +kernel
  have hvalues : ∀ entry ∈ folderScripts.flatMap assignedBy,
      '$' ∉ entry.2.toList ∧ '\\' ∉ entry.2.toList := by
    rw [hassigned]
    decide
  have hsegments : ∀ segment ∈ folderSegments, segment.IsProper := by
    simp only [folderSegments, List.forall_mem_cons, List.not_mem_nil, false_implies,
      implies_true, and_true, Segment.IsProper, ← List.all_eq_true]
    decide
  have hsame : ∀ name, lastValue? (reorderedScripts.flatMap assignedBy) name =
      lastValue? (folderScripts.flatMap assignedBy) name := by
    intro name
    rw [hassigned, hreordered]
    by_cases hkind : name = "kind"
    · subst hkind
      rfl
    · by_cases hdir : name = "dir"
      · subst hdir
        rfl
      · simp [lastValue?, List.find?_cons, Ne.symm hkind, Ne.symm hdir]
  obtain ⟨hexpanded, hother⟩ := expandVariables_of_afterReading hvalues hsegments
  have htext : String.ofList (textOf folderSegments) = "$(dir)/$(n)$(lost)$(kind)" := by decide
  have hresult : String.ofList (textOf (folderSegments.map
      (Segment.expand (lastValue? (folderScripts.flatMap assignedBy))))) =
        "clean/1$(lost)(qvd)" := by
    rw [hassigned]
    decide
  rw [hresult] at hexpanded
  have hreorder := (hother reorderedScripts hsame).trans hexpanded
  rw [htext] at hexpanded hreorder
  exact ⟨by decide +kernel, hexpanded, by decide +kernel, hreorder⟩

end QlikMigration.Script
