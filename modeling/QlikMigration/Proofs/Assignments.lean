import QlikMigration.Proofs.PassedOver
import QlikMigration.Proofs.Runs

/-!
# The variables of a script

Variables are kept twice. A reader keeps them while it reads, and they stay with
it when a line cannot be read and when it goes on to another script. A data model
is given those that are among the statements of a script.

Either way the variables depend on the assignments alone, taken in order: there
is one for each name that is assigned, where it is assigned first, with the
value that it is assigned last. So after a script the two agree. A line that is
passed over counts for neither of them.
-/

namespace QlikMigration

open QlikMigration.Script

namespace Script

/-! ## Assignments -/

/-- The name and the value that a statement assigns, if it is an assignment. -/
def Statement.assigned? : Statement → Option (String × String)
  | .assign assignment => some (assignment.name, assignment.value)
  | _ => none

/-- The names and values that statements assign, in order. -/
def assignments (statements : List Statement) : List (String × String) :=
  statements.filterMap Statement.assigned?

/-- Variables that record what is assigned: each name once, in the order of the first
assignments, with the value that no later assignment replaces. -/
structure Variables.Records (bindings : Variables) (entries : List (String × String)) : Prop where
  names : bindings.names = (entries.map Prod.fst).eraseDups
  last : ∀ name value, (name, value) ∈ bindings.entries ↔
    ∃ front back, entries = front ++ (name, value) :: back ∧ ∀ later ∈ back, later.1 ≠ name

theorem records_ofList (entries : List (String × String)) :
    Variables.Records (Catalog.ofList entries) entries where
  names := Catalog.names_ofList entries
  last _ _ := Catalog.mem_ofList_iff

theorem foldl_after (statements : List Statement) (bindings : Variables) :
    statements.foldl Variables.after bindings =
      (assignments statements).foldl (fun kept entry => kept.put entry.1 entry.2) bindings := by
  rw [assignments, List.foldl_filterMap]
  congr 1
  funext kept statement
  cases statement <;> rfl

/-! ## Reading -/

/-- The statements that lines give, up to the first line that cannot be read. -/
def statementsBefore : List (List Char) → List Statement
  | [] => []
  | line :: rest =>
    match readLine line with
    | .ok result => result.toList ++ statementsBefore rest
    | .error _ => []

theorem statementsBefore_of_ok {lines : List (List Char)} {statements : List Statement}
    (h : lineResults lines = .ok statements) : statementsBefore lines = statements := by
  induction lines generalizing statements with
  | nil =>
      cases h
      rfl
  | cons line rest ih =>
      cases hline : readLine line with
      | error error =>
          rw [lineResults_cons_of_error hline] at h
          cases h
      | ok result =>
          rw [lineResults_cons_of_ok hline] at h
          cases hrest : lineResults rest with
          | error error =>
              rw [hrest] at h
              cases h
          | ok later =>
              rw [hrest] at h
              cases h
              rw [statementsBefore, hline, ih hrest]

/-- A reader is left with the variables of the lines that it has looked at, whether it came to
the end of them or not. -/
theorem bindings_readLines (lines : List (List Char)) (bindings : Variables) :
    (readLines lines bindings).2.bindings =
      (statementsBefore (lookedAt false lines)).foldl Variables.after bindings := by
  fun_induction readLines lines bindings with
  | case1 => rfl
  | case2 line rest bindings error hline => rw [lookedAt, statementsBefore, hline]; rfl
  | case3 line rest bindings statement hline read reader hread ih =>
      have hnothing : givesNothing line = false := by
        rw [givesNothing, hline]
      rw [hread] at ih
      rw [lookedAt, hnothing, statementsBefore, hline]
      exact ih
  | case4 line bindings hline => rw [lookedAt, statementsBefore, hline]; rfl
  | case5 line bindings hline skipped later ih =>
      rw [lookedAt, givesNothing_iff.mpr hline, lookedAt, statementsBefore, hline]
      exact ih

/-- What reading a script assigns, up to the first line that cannot be read. -/
def assignedBy (script : String) : List (String × String) :=
  assignments (statementsBefore (lookedAt false (statementLines script.toList)))

/-- The reader after one more script, whether that could be read or not. -/
def Reader.afterReading (reader : Reader) (script : String) : Reader :=
  (reader.read script).2

theorem Reader.bindings_afterReading (reader : Reader) (script : String) :
    (reader.afterReading script).bindings =
      (assignedBy script).foldl (fun kept entry => kept.put entry.1 entry.2) reader.bindings := by
  rw [afterReading, Reader.read, bindings_readLines, foldl_after]
  rfl

/-- After any number of scripts the variables of a reader are the catalog of all that was
assigned. -/
theorem Reader.bindings_foldl_afterReading (scripts : List String) :
    (scripts.foldl afterReading start).bindings = Catalog.ofList (scripts.flatMap assignedBy) := by
  have hrun : ∀ reader : Reader, (scripts.foldl afterReading reader).bindings =
      (scripts.flatMap assignedBy).foldl (fun kept entry => kept.put entry.1 entry.2)
        reader.bindings := by
    induction scripts with
    | nil => exact fun _ => rfl
    | cons script scripts ih =>
        intro reader
        rw [List.foldl_cons, ih, bindings_afterReading, List.flatMap_cons, List.foldl_append]
  exact hrun start

end Script

/-! ## Reader and model -/

/-- After a script that is read and taken in, the variables of the reader are those of the model,
and they record the assignments among the statements. -/
theorem records_of_readScript {script : String} {statements : List Statement} {reader : Reader}
    {model : DataModel} (hread : Reader.start.read script = (.ok statements, reader))
    (hmodel : DataModel.ofStatements statements = .ok model) :
    reader.bindings = model.bindings ∧ reader.bindings.Records (assignments statements) := by
  have hstatements : statementsBefore (lookedAt false (statementLines script.toList)) =
      statements := by
    apply statementsBefore_of_ok
    rw [← readLines_fst _ Reader.start.bindings]
    exact congrArg Prod.fst hread
  have hreader : reader.bindings = Catalog.ofList (assignments statements) := by
    have hbindings := bindings_readLines (statementLines script.toList) Reader.start.bindings
    rw [hstatements, foldl_after] at hbindings
    exact (congrArg (fun run => run.2.bindings) hread.symm).trans hbindings
  obtain ⟨after, hafter, rfl⟩ := DataModel.ofStatements_eq_ok hmodel
  have hmodelled : after.model.bindings = Catalog.ofList (assignments statements) := by
    rw [(Builder.extends_of_foldlM hafter).bindings, foldl_after]
    rfl
  refine ⟨hreader.trans hmodelled.symm, ?_⟩
  rw [hreader]
  exact records_ofList (assignments statements)

/-- A variable is assigned twice, and another assignment is passed over. -/
def countingScript : String :=
  "LET n = 1;\nSET path = data;\nTRACE counting;\nLET lost = 3;\n" ++
    "M: MAPPING LOAD k, v FROM rates;\nLET n = 2;"

def countingStatements : List Statement :=
  [.assign ⟨"n", "1", true⟩, .assign ⟨"path", "data", false⟩,
    .mapping ⟨"M", "k", "v", "rates", none⟩, .assign ⟨"n", "2", true⟩]

theorem records_of_countingScript : ∃ reader model,
    Reader.start.read countingScript = (.ok countingStatements, reader) ∧
      DataModel.ofStatements countingStatements = .ok model ∧
      reader.bindings = model.bindings ∧
      reader.bindings.Records [("n", "1"), ("path", "data"), ("n", "2")] ∧
      reader.bindings.entries = [("n", "2"), ("path", "data")] := by
  have hread : Reader.start.read countingScript =
      (.ok countingStatements, ⟨[], .ofList [("n", "2"), ("path", "data")]⟩) := by
    decide +kernel
  obtain ⟨model, hmodel⟩ : ∃ model, DataModel.ofStatements countingStatements = .ok model :=
    ⟨_, rfl⟩
  obtain ⟨hagree, hrecords⟩ := records_of_readScript hread hmodel
  exact ⟨_, model, hread, hmodel, hagree, hrecords, rfl⟩

end QlikMigration
