import Mathlib.Data.List.ReduceOption
import QlikMigration.Script.Reader

/-!
# Which lines of a script are read

Reading a script goes through its statement lines with one bit of memory: after
a line that gives no statement, the next line is passed over. So a script falls
into the lines that are looked at and the lines that are passed over, and the
statements of the script are what the lines looked at give, each on its own.

Nothing is lost exactly if every line that is passed over would have given
nothing anyway.
-/

namespace QlikMigration.Script

/-! ## Lines looked at and lines passed over -/

/-- Whether a line is read without giving a statement. -/
def givesNothing (line : List Char) : Bool :=
  match readLine line with
  | .ok none => true
  | _ => false

/-- The lines that are looked at, where `skip` says whether the first is passed over. -/
def lookedAt : Bool → List (List Char) → List (List Char)
  | _, [] => []
  | true, _ :: rest => lookedAt false rest
  | false, line :: rest => line :: lookedAt (givesNothing line) rest

/-- The lines that are passed over, where `skip` says whether the first is. -/
def passedOver : Bool → List (List Char) → List (List Char)
  | _, [] => []
  | true, line :: rest => line :: passedOver false rest
  | false, line :: rest => passedOver (givesNothing line) rest

/-- The statements that lines give, each line read on its own. -/
def lineResults (lines : List (List Char)) : Except ReadError (List Statement) :=
  (lines.mapM readLine).map List.reduceOption

/-- A line gives nothing exactly if it is read without a statement. -/
theorem givesNothing_iff {line : List Char} :
    givesNothing line = true ↔ readLine line = .ok none := by
  unfold givesNothing
  split
  · next h => exact ⟨fun _ => h, fun _ => rfl⟩
  · next h => exact ⟨fun hfalse => absurd hfalse Bool.false_ne_true, fun heq => absurd heq h⟩

@[simp]
theorem lineResults_nil : lineResults [] = .ok [] := rfl

/-- A line that cannot be read fails with all lines after it. -/
theorem lineResults_cons_of_error {line : List Char} {rest : List (List Char)}
    {error : ReadError} (h : readLine line = .error error) :
    lineResults (line :: rest) = .error error := by
  rw [lineResults, List.mapM_cons, h]
  rfl

/-- A line that can be read puts its statement, if any, before those of the lines
after it. -/
theorem lineResults_cons_of_ok {line : List Char} {rest : List (List Char)}
    {result : Option Statement} (h : readLine line = .ok result) :
    lineResults (line :: rest) = (lineResults rest).map (result.toList ++ ·) := by
  rw [lineResults, List.mapM_cons, h, lineResults]
  cases hrest : rest.mapM readLine with
  | error error => rfl
  | ok results =>
      cases result with
      | none => rfl
      | some statement => rfl

/-- Each statement that lines give is given by one of them. -/
theorem exists_readLine_of_mem_lineResults {lines : List (List Char)}
    {statements : List Statement} (h : lineResults lines = .ok statements) {statement : Statement}
    (hmem : statement ∈ statements) : ∃ line ∈ lines, readLine line = .ok (some statement) := by
  induction lines generalizing statements with
  | nil =>
      cases h
      cases hmem
  | cons line rest ih =>
      cases hline : readLine line with
      | error error =>
          rw [lineResults_cons_of_error hline] at h
          cases h
      | ok result =>
          rw [lineResults_cons_of_ok hline] at h
          cases hrest : lineResults rest with
          | error error =>
              rw [hrest] at h
              cases h
          | ok later =>
              rw [hrest] at h
              cases h
              rcases List.mem_append.mp hmem with hhere | hlater
              · rw [Option.mem_toList.mp hhere] at hline
                exact ⟨line, List.mem_cons_self, hline⟩
              · obtain ⟨other, hother, hread⟩ := ih hrest hlater
                exact ⟨other, List.mem_cons_of_mem line hother, hread⟩

/-- Reading lines gives what the lines looked at give on their own, or the first
failure among them. -/
theorem readLines_fst (lines : List (List Char)) (bindings : Variables) :
    (readLines lines bindings).1 = lineResults (lookedAt false lines) := by
  fun_induction readLines lines bindings with
  | case1 => rfl
  | case2 line rest bindings error hline =>
      rw [lookedAt, lineResults_cons_of_error hline]
  | case3 line rest bindings statement hline read reader hread ih =>
      have hnothing : givesNothing line = false := by
        rw [givesNothing, hline]
      rw [lookedAt, hnothing, lineResults_cons_of_ok hline, ← ih, hread]
      rfl
  | case4 line bindings hline =>
      rw [lookedAt, lineResults_cons_of_ok hline]
      rfl
  | case5 line bindings hline skipped later ih =>
      have hnothing : givesNothing line = true := givesNothing_iff.mpr hline
      rw [lookedAt, hnothing, lookedAt, lineResults_cons_of_ok hline, ih]
      cases lineResults (lookedAt false later) with
      | error error => rfl
      | ok statements => rfl

/-! ## Lines after lines -/

/-- Whether the line after the given ones is passed over, where `skip` says whether the
first of them is. -/
def skipsNext : Bool → List (List Char) → Bool
  | skip, [] => skip
  | true, _ :: rest => skipsNext false rest
  | false, line :: rest => skipsNext (givesNothing line) rest

theorem lookedAt_append (skip : Bool) (lines later : List (List Char)) :
    lookedAt skip (lines ++ later) =
      lookedAt skip lines ++ lookedAt (skipsNext skip lines) later := by
  induction lines generalizing skip with
  | nil => cases skip <;> rfl
  | cons line lines ih =>
      cases skip with
      | true => exact ih false
      | false => exact congrArg (line :: ·) (ih (givesNothing line))

theorem lineResults_append_eq_ok {lines later : List (List Char)} {statements : List Statement} :
    lineResults (lines ++ later) = .ok statements ↔
      ∃ front back, lineResults lines = .ok front ∧ lineResults later = .ok back ∧
        statements = front ++ back := by
  induction lines generalizing statements with
  | nil => simp
  | cons line lines ih =>
      rw [List.cons_append]
      cases hline : readLine line with
      | error error =>
          rw [lineResults_cons_of_error hline, lineResults_cons_of_error hline]
          simp
      | ok result =>
          rw [lineResults_cons_of_ok hline, lineResults_cons_of_ok hline]
          constructor
          · intro h
            cases hrest : lineResults (lines ++ later) with
            | error error =>
                rw [hrest] at h
                cases h
            | ok found =>
                rw [hrest] at h
                cases h
                obtain ⟨front, back, hfront, hback, rfl⟩ := ih.mp hrest
                exact ⟨result.toList ++ front, back, by rw [hfront]; rfl, hback, by simp⟩
          · rintro ⟨front, back, hfront, hback, rfl⟩
            cases hrest : lineResults lines with
            | error error =>
                rw [hrest] at hfront
                cases hfront
            | ok found =>
                rw [hrest] at hfront
                cases hfront
                rw [ih.mpr ⟨found, back, hrest, hback, rfl⟩]
                simp [Except.map]

/-! ## What is lost -/

/-- If no line that is passed over gives a statement, the lines looked at give all
statements. -/
theorem lineResults_eq_of_passedOver {skip : Bool} {lines : List (List Char)}
    (h : ∀ line ∈ passedOver skip lines, readLine line = .ok none) :
    lineResults lines = lineResults (lookedAt skip lines) := by
  induction lines generalizing skip with
  | nil => cases skip <;> rfl
  | cons line rest ih =>
      cases skip with
      | true =>
          have hline := h line List.mem_cons_self
          have hrest := ih fun other hother => h other (List.mem_cons_of_mem _ hother)
          rw [lookedAt, ← hrest, lineResults_cons_of_ok hline]
          cases lineResults rest with
          | error error => rfl
          | ok statements => rfl
      | false =>
          have hrest : lineResults rest = lineResults (lookedAt (givesNothing line) rest) := ih h
          rw [lookedAt]
          cases hline : readLine line with
          | error error => rw [lineResults_cons_of_error hline, lineResults_cons_of_error hline]
          | ok result =>
              rw [lineResults_cons_of_ok hline, lineResults_cons_of_ok hline, hrest]

/-- The statements of all lines are those of the lines looked at and one for each
line that is passed over and gives one. -/
theorem length_lineResults {skip : Bool} {lines : List (List Char)}
    {all seen : List Statement} (hall : lineResults lines = .ok all)
    (hseen : lineResults (lookedAt skip lines) = .ok seen) :
    all.length =
      seen.length + ((passedOver skip lines).filter (!givesNothing ·)).length := by
  induction lines generalizing skip all seen with
  | nil =>
      cases hall
      cases skip <;> cases hseen <;> rfl
  | cons line rest ih =>
      cases hline : readLine line with
      | error error =>
          rw [lineResults_cons_of_error hline] at hall
          cases hall
      | ok result =>
          rw [lineResults_cons_of_ok hline] at hall
          cases hrest : lineResults rest with
          | error error =>
              rw [hrest] at hall
              cases hall
          | ok later =>
              rw [hrest] at hall
              cases hall
              rw [List.length_append]
              cases skip with
              | true =>
                  have hcount := ih hrest hseen
                  rw [passedOver]
                  cases result with
                  | none =>
                      have hnothing := givesNothing_iff.mpr hline
                      simp [hnothing, hcount]
                  | some statement =>
                      have hsomething : givesNothing line = false := by
                        rw [givesNothing, hline]
                      simp [hsomething, hcount]
                      omega
              | false =>
                  rw [lookedAt, lineResults_cons_of_ok hline] at hseen
                  cases hlooked : lineResults (lookedAt (givesNothing line) rest) with
                  | error error =>
                      rw [hlooked] at hseen
                      cases hseen
                  | ok lookedLater =>
                      rw [hlooked] at hseen
                      cases hseen
                      rw [passedOver, List.length_append, ih hrest hlooked]
                      omega

/-- The statements of a script are what the lines looked at give on their own. They
are what all its lines give on their own exactly if no line that is passed over
gives a statement or a failure. -/
theorem readScript_eq_lineResults_iff {script : String} {statements : List Statement}
    (hreturns : readScript script = .ok statements) :
    lineResults (lookedAt false (statementLines script.toList)) = .ok statements ∧
      (lineResults (statementLines script.toList) = .ok statements ↔
        ∀ line ∈ passedOver false (statementLines script.toList), readLine line = .ok none) := by
  have hlooked : lineResults (lookedAt false (statementLines script.toList)) = .ok statements := by
    rw [← hreturns]
    exact (readLines_fst _ _).symm
  refine ⟨hlooked, ?_, ?_⟩
  · intro hall line hline
    have hlength := length_lineResults hall hlooked
    have hnone : (passedOver false (statementLines script.toList)).filter (!givesNothing ·) = [] :=
      List.eq_nil_of_length_eq_zero (by omega)
    have hnothing := List.filter_eq_nil_iff.mp hnone line hline
    apply givesNothing_iff.mp
    simpa using hnothing
  · intro hnothing
    rw [lineResults_eq_of_passedOver hnothing]
    exact hlooked

/-- A remark that is no statement hides the assignment after it. -/
theorem readScript_loses_assignment :
    readScript "TRACE start;\nLET a = 1;\nLET b = 2;" = .ok [.assign ⟨"b", "2", true⟩] ∧
      lineResults (statementLines "TRACE start;\nLET a = 1;\nLET b = 2;".toList) ≠
        .ok [.assign ⟨"b", "2", true⟩] := by
  have hreturns : readScript "TRACE start;\nLET a = 1;\nLET b = 2;" =
      .ok [.assign ⟨"b", "2", true⟩] := by
    decide +kernel
  refine ⟨hreturns, fun hall => ?_⟩
  have hnothing := (readScript_eq_lineResults_iff hreturns).2.mp hall
  have hline := hnothing "LET a = 1;".toList (by decide +kernel)
  exact absurd hline (by decide +kernel)

end QlikMigration.Script
