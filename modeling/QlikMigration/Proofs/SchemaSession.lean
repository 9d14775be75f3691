import Mathlib.Data.List.Induction
import Mathlib.Data.List.Infix
import QlikMigration.Csv.Library
import QlikMigration.Page.Run
import QlikMigration.Proofs.Effects

/-!
# The schema of a session

The page is run again and again in one session, which keeps the schema and
whether one was loaded. Of all the tabs only the first changes these two; the
others, whatever they do outside and wherever they stop, leave them alone. So
what a session holds can be told from the schema files that its runs have
received.

Loading a file forgets the schema that was there, before the file is looked at.
If it is not accepted, the session is left with nothing, or with the rows before
a duplicate, while a schema still counts as loaded if an earlier file was
accepted. The page then converts with what is left.
-/

namespace QlikMigration.Page

open Fragment (element say session updateSession directory attempt button uploader)

/-! ## What a fragment leaves alone -/

/-- The outcome of a fragment, and the state that it leaves. -/
def Fragment.outcome {α : Type} (fragment : Fragment α) (state : State) :
    Except FileError α × State :=
  StateT.run (ExceptT.run fragment) state

theorem Fragment.outcome_bind {α β : Type} (first : Fragment α) (next : α → Fragment β)
    (state : State) :
    (first >>= next).outcome state =
      match first.outcome state with
      | (.ok result, after) => (next result).outcome after
      | (.error cause, after) => (.error cause, after) := by
  unfold Fragment.outcome ExceptT.run StateT.run
  simp only [bind, ExceptT.bind, ExceptT.mk, StateT.bind]
  cases first state with
  | mk result after => cases result <;> rfl

section Outcome

variable {α : Type} (state : State)

theorem outcome_element_bind (container : List String) (kind : String) (contents : List Content)
    (settings : List (String × Content)) (next : Unit → Fragment α) :
    (element container kind contents settings >>= next).outcome state =
      (next ()).outcome
        { state with shown := ⟨container, kind, contents, settings⟩ :: state.shown } :=
  rfl

theorem outcome_say_bind (container : List String) (kind text : String)
    (next : Unit → Fragment α) :
    (say container kind text >>= next).outcome state =
      (next ()).outcome
        { state with shown := ⟨container, kind, [.text text], []⟩ :: state.shown } :=
  rfl

theorem outcome_button_bind (entries : Entries) (container : List String) (label : String)
    (settings : List (String × Content)) (next : Bool → Fragment α) :
    (button entries container label settings >>= next).outcome state =
      (next (entries.pressed.contains label)).outcome
        { state with shown := ⟨container, "button", [.text label], settings⟩ :: state.shown } :=
  rfl

theorem outcome_session_bind (next : Session → Fragment α) :
    (session >>= next).outcome state = (next state.session).outcome state :=
  rfl

end Outcome

/-- A state with the schema of an earlier one, in which everything shown before is still shown. -/
structure SameSchema (before after : State) : Prop where
  schema : after.session.schema = before.session.schema
  loaded : after.session.schemaLoaded = before.session.schemaLoaded
  shown : before.shown <:+ after.shown

theorem SameSchema.refl (state : State) : SameSchema state state :=
  ⟨rfl, rfl, List.suffix_refl _⟩

theorem SameSchema.trans {first second third : State} (h : SameSchema first second)
    (h' : SameSchema second third) : SameSchema first third :=
  ⟨h'.schema.trans h.schema, h'.loaded.trans h.loaded, h.shown.trans h'.shown⟩

/-- A fragment that leaves the schema alone, also if it stops early. -/
def KeepsSchema {α : Type} (fragment : Fragment α) : Prop :=
  ∀ state, SameSchema state (fragment.outcome state).2

namespace KeepsSchema

variable {α β : Type}

theorem pure (result : α) : KeepsSchema (Pure.pure result) :=
  fun state => .refl state

theorem throw (cause : FileError) : KeepsSchema (MonadExcept.throw cause : Fragment α) :=
  fun state => .refl state

theorem bind {first : Fragment α} {next : α → Fragment β} (hfirst : KeepsSchema first)
    (hnext : ∀ result, KeepsSchema (next result)) : KeepsSchema (first >>= next) := by
  intro state
  rw [Fragment.outcome_bind]
  have hstart := hfirst state
  cases hoc : first.outcome state with
  | mk result after =>
      rw [hoc] at hstart
      cases result with
      | ok result => exact hstart.trans (hnext result after)
      | error cause => exact hstart

theorem element (container : List String) (kind : String) (contents : List Content)
    (settings : List (String × Content)) :
    KeepsSchema (Fragment.element container kind contents settings) :=
  fun _ => ⟨rfl, rfl, List.suffix_cons _ _⟩

theorem say (container : List String) (kind text : String) :
    KeepsSchema (Fragment.say container kind text) :=
  element container kind _ _

theorem uploader (container : List String) (label key : String) (types : List String)
    (settings : List (String × Content)) :
    KeepsSchema (Fragment.uploader container label key types settings) :=
  element container _ _ _

theorem button (entries : Entries) (container : List String) (label : String)
    (settings : List (String × Content)) :
    KeepsSchema (Fragment.button entries container label settings) :=
  (element container _ _ _).bind fun _ => pure _

theorem session : KeepsSchema Fragment.session :=
  fun state => .refl state

theorem directory : KeepsSchema Fragment.directory :=
  fun state => .refl state

theorem attempt {ε : Type} (effect : Effect ε α) : KeepsSchema (Fragment.attempt effect) :=
  fun _ => ⟨rfl, rfl, List.suffix_refl _⟩

theorem updateSession {f : Session → Session}
    (hschema : ∀ session, (f session).schema = session.schema)
    (hloaded : ∀ session, (f session).schemaLoaded = session.schemaLoaded) :
    KeepsSchema (Fragment.updateSession f) :=
  fun _ => ⟨hschema _, hloaded _, List.suffix_refl _⟩

/-- Elements before a fragment leave the schema alone. -/
theorem element_bind {container : List String} {kind : String} {contents : List Content}
    {settings : List (String × Content)} {next : Unit → Fragment α}
    (hnext : KeepsSchema (next ())) :
    KeepsSchema (Fragment.element container kind contents settings >>= next) :=
  (element container kind contents settings).bind fun _ => hnext

theorem say_bind {container : List String} {kind text : String} {next : Unit → Fragment α}
    (hnext : KeepsSchema (next ())) : KeepsSchema (Fragment.say container kind text >>= next) :=
  element_bind hnext

/-- What is done only where a button is pressed, before what is done in any case. -/
theorem ite_bind {pressed : Bool} {first : Fragment Unit} {next : Unit → Fragment α}
    (hfirst : KeepsSchema first) (hnext : ∀ result, KeepsSchema (next result)) :
    KeepsSchema (if pressed = true then first >>= next else next ()) := by
  split
  · exact hfirst.bind hnext
  · exact hnext ()

end KeepsSchema

/-! ### The tabs that do not load a schema -/

theorem keepsSchema_convertFormula (entries : Entries) : KeepsSchema (convertFormula entries) := by
  unfold convertFormula
  split
  · exact .say _ _ _
  · apply KeepsSchema.session.bind
    intro session
    split
    · apply KeepsSchema.say_bind
      exact .element _ _ _ _
    · exact .say _ _ _

theorem keepsSchema_showFormulaTab (entries : Entries) : KeepsSchema (showFormulaTab entries) := by
  unfold showFormulaTab
  apply KeepsSchema.say_bind
  apply KeepsSchema.session.bind
  intro session
  split
  · exact .say _ _ _
  · apply KeepsSchema.say_bind
    apply KeepsSchema.element_bind
    apply (KeepsSchema.button _ _ _ _).bind
    intro pressed
    split
    · exact keepsSchema_convertFormula entries
    · exact .pure _

theorem keepsSchema_convertRows (schema : Schema) (height : Nat) (rows : List DataRow) :
    KeepsSchema (convertRows schema height rows) := by
  induction rows with
  | nil => exact .pure _
  | cons row rows ih =>
      unfold convertRows
      split
      · exact .pure _
      · apply KeepsSchema.say_bind
        apply KeepsSchema.element_bind
        apply ih.bind
        intro converted
        split <;> exact .pure _

theorem keepsSchema_convertTable (library : TableLibrary) (table : DataTable) :
    KeepsSchema (convertTable library table) := by
  unfold convertTable
  apply KeepsSchema.element_bind
  apply KeepsSchema.element_bind
  apply KeepsSchema.session.bind
  intro session
  apply (keepsSchema_convertRows _ _ _).bind
  intro converted
  split
  · exact .say _ _ _
  · apply KeepsSchema.say_bind
    apply KeepsSchema.element_bind
    exact .element _ _ _ _

theorem keepsSchema_showTable (library : TableLibrary) (entries : Entries) (file : ByteArray) :
    KeepsSchema (showTable library entries file) := by
  unfold showTable
  split
  · exact .say _ _ _
  · split
    · exact .say _ _ _
    · apply KeepsSchema.say_bind
      apply KeepsSchema.element_bind
      apply (KeepsSchema.button _ _ _ _).bind
      intro pressed
      split
      · exact keepsSchema_convertTable library _
      · exact .pure _

theorem keepsSchema_showBatchTab (library : TableLibrary) (entries : Entries) :
    KeepsSchema (showBatchTab library entries) := by
  unfold showBatchTab
  apply KeepsSchema.say_bind
  apply KeepsSchema.session.bind
  intro session
  split
  · exact .say _ _ _
  · apply KeepsSchema.say_bind
    apply KeepsSchema.say_bind
    apply (KeepsSchema.uploader _ _ _ _ _).bind
    intro _
    split
    · exact keepsSchema_showTable library entries _
    · exact .pure _

theorem keepsSchema_analyze (workingDirectory : String) :
    KeepsSchema (analyze workingDirectory) := by
  unfold analyze
  apply KeepsSchema.say_bind
  apply (KeepsSchema.attempt _).bind
  intro analysis
  split
  · exact .bind (.updateSession (fun _ => rfl) fun _ => rfl) fun _ => .say _ _ _
  · apply KeepsSchema.say_bind
    exact .updateSession (fun _ => rfl) fun _ => rfl

theorem keepsSchema_showFindings (analysis : Json.Value) : KeepsSchema (showFindings analysis) := by
  unfold showFindings
  apply KeepsSchema.say_bind
  split
  · iterate 3 apply KeepsSchema.element_bind
    apply KeepsSchema.say_bind
    exact .say _ _ _
  · exact .pure _

theorem keepsSchema_publishDashboard (services : Services) (name : String) :
    KeepsSchema (publishDashboard services name) := by
  unfold publishDashboard
  apply KeepsSchema.say_bind
  apply (KeepsSchema.attempt _).bind
  intro published
  split
  · exact .bind (.updateSession (fun _ => rfl) fun _ => rfl) fun _ => .say _ _ _
  · apply KeepsSchema.say_bind
    exact .element _ _ _ _
  · apply KeepsSchema.say_bind
    exact .say _ _ _

theorem keepsSchema_makeProject (analysis : Json.Value) : KeepsSchema (makeProject analysis) := by
  unfold makeProject
  apply KeepsSchema.say_bind
  apply (KeepsSchema.attempt _).bind
  intro path
  split
  · exact .bind (.updateSession (fun _ => rfl) fun _ => rfl) fun _ => .say _ _ _
  · apply KeepsSchema.say_bind
    exact .element _ _ _ _

theorem keepsSchema_showPublished (published : Publish.Published) :
    KeepsSchema (showPublished published) := by
  unfold showPublished
  apply KeepsSchema.say_bind
  iterate 3 apply KeepsSchema.element_bind
  iterate 2 apply KeepsSchema.say_bind
  exact .say _ _ _

theorem keepsSchema_showProject (path : String) : KeepsSchema (showProject path) := by
  unfold showProject
  apply KeepsSchema.directory.bind
  intro directory
  split
  · apply KeepsSchema.element_bind
    exact .say _ _ _
  · exact .pure _

theorem keepsSchema_showAnalysis (services : Services) (entries : Entries) (name : String) :
    KeepsSchema (showAnalysis services entries name) := by
  unfold showAnalysis
  apply KeepsSchema.session.bind
  intro session
  apply (keepsSchema_showFindings _).bind
  intro _
  apply KeepsSchema.say_bind
  iterate 2 apply KeepsSchema.element_bind
  iterate 2 apply KeepsSchema.say_bind
  apply KeepsSchema.element_bind
  apply (KeepsSchema.button _ _ _ _).bind
  intro published
  apply (keepsSchema_publishDashboard services name).ite_bind
  intro _
  apply KeepsSchema.element_bind
  apply (KeepsSchema.button _ _ _ _).bind
  intro made
  apply (keepsSchema_makeProject _).ite_bind
  intro _
  apply KeepsSchema.say_bind
  apply KeepsSchema.session.bind
  intro current
  dsimp only
  -- Either way the project comes last.
  split
  case' h_1 =>
    apply (keepsSchema_showPublished _).bind
    intro _
  all_goals
    apply KeepsSchema.session.bind
    intro final
    split
    · exact keepsSchema_showProject _
    · exact .pure _

theorem keepsSchema_showPicture (services : Services) (workingDirectory : String)
    (entries : Entries) (name : String) (picture : Upload) :
    KeepsSchema (showPicture services workingDirectory entries name picture) := by
  unfold showPicture
  apply KeepsSchema.element_bind
  apply KeepsSchema.say_bind
  apply KeepsSchema.element_bind
  apply (KeepsSchema.attempt _).bind
  intro saved
  dsimp only
  split
  · exact .throw _
  · apply (KeepsSchema.button _ _ _ _).bind
    intro pressed
    apply (keepsSchema_analyze workingDirectory).ite_bind
    intro _
    apply KeepsSchema.session.bind
    intro current
    apply (keepsSchema_showAnalysis services entries name).ite_bind
    intro _
    exact fun _ => ⟨rfl, rfl, List.suffix_refl _⟩

theorem keepsSchema_showDashboardTab (services : Services) (workingDirectory : String)
    (entries : Entries) : KeepsSchema (showDashboardTab services workingDirectory entries) := by
  unfold showDashboardTab
  iterate 4 apply KeepsSchema.say_bind
  apply KeepsSchema.element_bind
  apply (KeepsSchema.uploader _ _ _ _ _).bind
  intro _
  split
  · exact keepsSchema_showPicture _ _ _ _ _
  · exact .pure _

/-! ## What loading a schema leaves -/

end QlikMigration.Page

namespace QlikMigration.Schema

/-- Whether a schema file is accepted. -/
def accepts (library : TableLibrary) (file : ByteArray) : Bool :=
  (load library file).1.isOk

/-- The schema that is there after a file was loaded, accepted or not. -/
def leftBy (library : TableLibrary) (file : ByteArray) : Schema :=
  (load library file).2

/-- Entries that are not accepted have a duplicate, and leave what the entries before it leave. -/
theorem exists_of_fill_eq_error {schema left : Schema} {seen : Seen} {entries : List Entry}
    {cause : SchemaError} (h : fill schema seen entries = (.error cause, left)) :
    ∃ before entry later, entries = before ++ entry :: later ∧
      fill schema seen before = (.ok (), left) ∧
      ∃ table row, cause = .duplicateField entry.field table row entry.number := by
  fun_induction fill schema seen entries with
  | case1 => cases h
  | case2 schema seen entry rest row hseen =>
      cases h
      exact ⟨[], entry, rest, rfl, rfl, _, row, rfl⟩
  | case3 schema seen entry rest table row hseen hne ih =>
      obtain ⟨before, next, later, rfl, hbefore, hcause⟩ := ih h
      refine ⟨entry :: before, next, later, rfl, ?_, hcause⟩
      rw [fill, hseen]
      exact (if_neg hne).trans hbefore
  | case4 schema seen entry rest hseen ih =>
      obtain ⟨before, next, later, rfl, hbefore, hcause⟩ := ih h
      refine ⟨entry :: before, next, later, rfl, ?_, hcause⟩
      rw [fill, hseen]
      exact hbefore

/-- A file that is not accepted leaves nothing, or what its rows before a duplicate give. -/
theorem leftBy_of_not_accepts {library : TableLibrary} {file : ByteArray}
    (h : accepts library file = false) :
    leftBy library file = ∅ ∨
      ∃ before entry later, readEntries library file = .ok (before ++ entry :: later) ∧
        loadEntries before = (.ok before.length, leftBy library file) := by
  unfold accepts leftBy load at *
  cases hread : readEntries library file with
  | error cause => exact Or.inl rfl
  | ok entries =>
      rw [hread] at h
      dsimp only at h ⊢
      cases hfill : fill ∅ ∅ entries with
      | mk outcome left =>
          cases outcome with
          | ok _ =>
              rw [loadEntries, hfill] at h
              cases h
          | error cause =>
              obtain ⟨before, entry, later, rfl, hbefore, -⟩ := exists_of_fill_eq_error hfill
              refine Or.inr ⟨before, entry, later, rfl, ?_⟩
              rw [loadEntries, hbefore, loadEntries, hfill]
              rfl

end QlikMigration.Schema

namespace QlikMigration.Page

open Fragment (element say session updateSession directory attempt button uploader)

/-! ## A run of the page -/

/-- Whether an uploaded schema can be written to its file. -/
def saves (directory : Directory) (file : ByteArray) : Bool :=
  (directory.writeName schemaFile (.bytes file)).isOk

/-- The schema file that a run loads: the uploaded one, if it can be written. -/
def received? (directory : Directory) (entries : Entries) : Option ByteArray :=
  entries.schema.filter (saves directory)

/-- The session after a schema file has been received, or none has. -/
structure Takes (library : TableLibrary) (file? : Option ByteArray) (before after : Session) :
    Prop where
  schema : after.schema = (file?.map (Schema.leftBy library)).getD before.schema
  loaded : after.schemaLoaded = (before.schemaLoaded || file?.any (Schema.accepts library))

section Run

variable (library : TableLibrary)

theorem outcome_attempt {ε α : Type} (effect : Effect ε α) (state : State) :
    (attempt effect).outcome state =
      (.ok (effect.perform state.world).1,
        { state with world := (effect.perform state.world).2 }) :=
  rfl

/-- Loading an uploaded schema does not stop the page. -/
theorem exists_outcome_loadSchema (file : ByteArray) (state : State) :
    ∃ after, (loadSchema library file).outcome state = (.ok (), after) ∧
      Takes library ((some file).filter (saves state.world.directory)) state.session
        after.session := by
  rw [loadSchema, Fragment.outcome_bind, outcome_attempt, Effect.perform_change,
    Option.filter_some]
  cases hwrite : state.world.directory.writeName schemaFile (.bytes file) with
  | error cause =>
      have hsaves : saves state.world.directory file = false := by
        rw [saves, hwrite]
        rfl
      rw [hsaves]
      exact ⟨_, rfl, rfl, (Bool.or_false _).symm⟩
  | ok directory =>
      have hsaves : saves state.world.directory file = true := by
        rw [saves, hwrite]
        rfl
      rw [hsaves]
      dsimp only
      cases hload : Schema.load library file with
      | mk outcome schema =>
          have hleft : Schema.leftBy library file = schema := by rw [Schema.leftBy, hload]
          cases outcome with
          | error cause =>
              have haccepts : Schema.accepts library file = false := by
                rw [Schema.accepts, hload]
                rfl
              exact ⟨_, rfl, hleft.symm, by simp [haccepts]⟩
          | ok count =>
              have haccepts : Schema.accepts library file = true := by
                rw [Schema.accepts, hload]
                rfl
              exact ⟨_, rfl, hleft.symm, by simp [haccepts]⟩

/-- The first tab does not stop the page. -/
theorem exists_outcome_showSchemaTab (entries : Entries) (state : State) :
    ∃ after, (showSchemaTab library entries).outcome state = (.ok (), after) ∧
      Takes library (received? state.world.directory entries) state.session after.session := by
  unfold showSchemaTab received?
  cases entries.schema with
  | none => exact ⟨_, rfl, rfl, (Bool.or_false _).symm⟩
  | some file => exact exists_outcome_loadSchema library file _

/-- The tabs after the first. -/
def laterTabs (services : Services) (workingDirectory : String) (entries : Entries) :
    Fragment Unit := do
  showFormulaTab entries
  showBatchTab library entries
  showDashboardTab services workingDirectory entries

variable (services : Services) (workingDirectory : String) (session : Session)
  (directory : Directory) (entries : Entries)

theorem keepsSchema_laterTabs : KeepsSchema (laterTabs library services workingDirectory entries) :=
  (keepsSchema_showFormulaTab entries).bind fun _ =>
    (keepsSchema_showBatchTab library entries).bind fun _ =>
      keepsSchema_showDashboardTab services workingDirectory entries

/-- A run is the first tab, which takes the schema in, and the tabs after it. -/
theorem exists_run_eq :
    ∃ after final, Takes library (received? directory entries) session after.session ∧
      ((laterTabs library services workingDirectory entries).outcome after).2 = final ∧
      (run library services workingDirectory session directory entries).session = final.session ∧
      (run library services workingDirectory session directory entries).elements =
        final.shown.reverse := by
  have hbuild : ∃ shown, (build library services workingDirectory entries).outcome
        { world := { directory }, session } =
      (showSchemaTab library entries >>= fun _ =>
        laterTabs library services workingDirectory entries).outcome
        { world := { directory }, session, shown } := ⟨_, rfl⟩
  obtain ⟨shown, hbuild⟩ := hbuild
  obtain ⟨after, hfirst, htakes⟩ :=
    exists_outcome_showSchemaTab library entries { world := { directory }, session, shown }
  rw [Fragment.outcome_bind, hfirst] at hbuild
  refine ⟨after, _, htakes, rfl, ?_, ?_⟩
  · exact congrArg (fun result => result.2.session) hbuild
  · exact congrArg (fun result => result.2.shown.reverse) hbuild

/-- What a run does to the schema is done by its first tab. -/
theorem takes_run :
    Takes library (received? directory entries) session
      (run library services workingDirectory session directory entries).session := by
  obtain ⟨after, final, htakes, rfl, hsession, -⟩ :=
    exists_run_eq library services workingDirectory session directory entries
  have hkept := keepsSchema_laterTabs library services workingDirectory entries after
  rw [hsession]
  exact ⟨hkept.schema.trans htakes.schema, hkept.loaded.trans htakes.loaded⟩

/-- How the outcome of a conversion is shown. -/
def conversionElement : Except Dax.DaxError String → Element
  | .ok measure => ⟨formulaTab, "code", [.text measure], [("language", .text "dax")]⟩
  | .error cause => ⟨formulaTab, "error", [.text ("Conversion failed: " ++ cause.message)], []⟩

theorem exists_outcome_showFormulaTab {state : State}
    (hloaded : state.session.schemaLoaded = true)
    (hpressed : entries.pressed.contains "Convert" = true) (hformula : entries.formula ≠ "") :
    ∃ after, (showFormulaTab entries).outcome state = (.ok (), after) ∧
      conversionElement (Dax.convert state.session.schema entries.formula) ∈ after.shown := by
  rw [showFormulaTab, outcome_say_bind, outcome_session_bind]
  dsimp only
  rw [hloaded, Bool.not_true, if_neg Bool.false_ne_true, outcome_say_bind, outcome_element_bind,
    outcome_button_bind, hpressed, if_pos rfl, convertFormula, if_neg (by simpa using hformula),
    outcome_session_bind]
  dsimp only
  cases Dax.convert state.session.schema entries.formula with
  | ok measure => exact ⟨_, rfl, List.mem_cons_self⟩
  | error cause => exact ⟨_, rfl, List.mem_cons_self⟩

/-- If a schema counts as loaded, a formula is converted with the schema of the session. -/
theorem mem_elements_run
    (hloaded :
      (run library services workingDirectory session directory entries).session.schemaLoaded = true)
    (hpressed : entries.pressed.contains "Convert" = true) (hformula : entries.formula ≠ "") :
    conversionElement (Dax.convert
        (run library services workingDirectory session directory entries).session.schema
        entries.formula) ∈
      (run library services workingDirectory session directory entries).elements := by
  obtain ⟨after, final, -, rfl, hsession, helements⟩ :=
    exists_run_eq library services workingDirectory session directory entries
  have hkept := keepsSchema_laterTabs library services workingDirectory entries after
  rw [hsession, hkept.loaded] at hloaded
  rw [hsession, hkept.schema, helements, List.mem_reverse]
  obtain ⟨next, hnext, hmem⟩ := exists_outcome_showFormulaTab entries hloaded hpressed hformula
  have hlater : KeepsSchema (showBatchTab library entries >>= fun _ =>
      showDashboardTab services workingDirectory entries) :=
    (keepsSchema_showBatchTab library entries).bind fun _ =>
      keepsSchema_showDashboardTab services workingDirectory entries
  rw [laterTabs, Fragment.outcome_bind, hnext]
  exact (hlater next).shown.subset hmem

end Run

/-! ## A session -/

/-- A run of the page in a session: what there is outside, and what the user has entered. -/
structure Visit where
  services : Services
  workingDirectory : String
  directory : Directory
  entries : Entries

/-- The schema files that runs load, in order. -/
def received (visits : List Visit) : List ByteArray :=
  visits.filterMap fun visit => received? visit.directory visit.entries

theorem received_append (visits : List Visit) (visit : Visit) :
    received (visits ++ [visit]) =
      received visits ++ (received? visit.directory visit.entries).toList := by
  rw [received, List.filterMap_append]
  cases h : received? visit.directory visit.entries <;> simp [received, h]

section Session

variable (library : TableLibrary)

/-- The outcome of a run on the session that earlier runs have left. -/
def Visit.outcome (visit : Visit) (session : Session) : Outcome :=
  run library visit.services visit.workingDirectory session visit.directory visit.entries

/-- The session after runs. -/
def sessionAfter (visits : List Visit) : Session :=
  visits.foldl (fun session visit => (visit.outcome library session).session) {}

/-- The latest file among those received that was accepted. -/
def lastAccepted? (visits : List Visit) : Option ByteArray :=
  ((received visits).filter (Schema.accepts library)).getLast?

theorem sessionAfter_append (visits : List Visit) (visit : Visit) :
    sessionAfter library (visits ++ [visit]) =
      (visit.outcome library (sessionAfter library visits)).session := by
  rw [sessionAfter, List.foldl_append]
  rfl

/-- The schema of a session is what the last file received has left. -/
theorem sessionAfter_schema (visits : List Visit) :
    (sessionAfter library visits).schema =
      ((received visits).getLast?.map (Schema.leftBy library)).getD ∅ := by
  induction visits using List.reverseRecOn with
  | nil => rfl
  | append_singleton visits visit ih =>
      have htakes := takes_run library visit.services visit.workingDirectory
        (sessionAfter library visits) visit.directory visit.entries
      rw [sessionAfter_append, received_append]
      refine htakes.schema.trans ?_
      cases received? visit.directory visit.entries with
      | none => simpa using ih
      | some file => simp

/-- A schema counts as loaded as soon as some file received was accepted. -/
theorem sessionAfter_schemaLoaded (visits : List Visit) :
    (sessionAfter library visits).schemaLoaded =
      (received visits).any (Schema.accepts library) := by
  induction visits using List.reverseRecOn with
  | nil => rfl
  | append_singleton visits visit ih =>
      have htakes := takes_run library visit.services visit.workingDirectory
        (sessionAfter library visits) visit.directory visit.entries
      rw [sessionAfter_append, received_append]
      refine htakes.loaded.trans ?_
      rw [ih]
      cases received? visit.directory visit.entries with
      | none => simp
      | some file => simp

/-- If a schema counts as loaded, it is that of the latest file that was accepted. -/
def HoldsAccepted (visits : List Visit) : Prop :=
  (sessionAfter library visits).schemaLoaded = true →
    ∃ file, lastAccepted? library visits = some file ∧
      (sessionAfter library visits).schema = Schema.leftBy library file

/-- What becomes of the schema in a session. -/
structure SchemaRun (visits : List Visit) : Prop where
  schema : (sessionAfter library visits).schema =
    ((received visits).getLast?.map (Schema.leftBy library)).getD ∅
  loaded : (sessionAfter library visits).schemaLoaded =
    (received visits).any (Schema.accepts library)
  /-- A file that is not accepted removes every entry, and contributes those before a duplicate. -/
  rejected : ∀ file, (received visits).getLast? = some file →
    Schema.accepts library file = false →
    (sessionAfter library visits).schema = ∅ ∨
      ∃ before entry later, Schema.readEntries library file = .ok (before ++ entry :: later) ∧
        Schema.loadEntries before = (.ok before.length, (sessionAfter library visits).schema)
  /-- The schema is that of the latest accepted file only if the last file leaves the same. -/
  holds_iff : HoldsAccepted library visits ↔
    ∀ accepted ∈ lastAccepted? library visits, ∀ last ∈ (received visits).getLast?,
      Schema.leftBy library last = Schema.leftBy library accepted
  /-- A run converts with the schema that it leaves. -/
  converted : ∀ earlier visit, visits = earlier ++ [visit] →
    (sessionAfter library visits).schemaLoaded = true →
    visit.entries.pressed.contains "Convert" = true → visit.entries.formula ≠ "" →
      conversionElement (Dax.convert (sessionAfter library visits).schema visit.entries.formula) ∈
        (visit.outcome library (sessionAfter library earlier)).elements

theorem holdsAccepted_iff (visits : List Visit) :
    HoldsAccepted library visits ↔
      ∀ accepted ∈ lastAccepted? library visits, ∀ last ∈ (received visits).getLast?,
        Schema.leftBy library last = Schema.leftBy library accepted := by
  unfold HoldsAccepted
  rw [sessionAfter_schema, sessionAfter_schemaLoaded]
  constructor
  · intro h accepted haccepted last hlast
    have hmem := List.mem_filter.mp (List.mem_of_getLast? haccepted)
    obtain ⟨file, hfile, hleft⟩ := h (List.any_eq_true.mpr ⟨accepted, hmem⟩)
    rw [Option.mem_def.mp hlast] at hleft
    obtain rfl : accepted = file := Option.some.inj (haccepted.symm.trans hfile)
    exact hleft
  · intro h hloaded
    obtain ⟨file, hfile, haccepts⟩ := List.any_eq_true.mp hloaded
    have hfiltered := List.ne_nil_of_mem (List.mem_filter.mpr ⟨hfile, haccepts⟩)
    have haccepted := List.getLast?_eq_some_getLast hfiltered
    have hlast := List.getLast?_eq_some_getLast (List.ne_nil_of_mem hfile)
    refine ⟨_, haccepted, ?_⟩
    rw [hlast]
    exact h _ haccepted _ hlast

end Session

/-- Whatever library reads the files, in every session the schema is what the last file received
has left, accepted or not, while one accepted file suffices for a schema to count as loaded from
then on. -/
theorem schemaRun_of_visits (library : TableLibrary) (visits : List Visit) :
    SchemaRun library visits where
  schema := sessionAfter_schema library visits
  loaded := sessionAfter_schemaLoaded library visits
  rejected file hlast hrejected := by
    rw [sessionAfter_schema, hlast]
    exact Schema.leftBy_of_not_accepts hrejected
  holds_iff := holdsAccepted_iff library visits
  converted earlier visit hvisits hloaded hpressed hformula := by
    subst hvisits
    rw [sessionAfter_append] at hloaded ⊢
    exact mem_elements_run _ _ _ _ _ _ hloaded hpressed hformula

/-- A run in which a schema is uploaded and a formula is converted. -/
def uploading (file : ByteArray) : Visit where
  services := { datasetId := "dataset", reportId := "report" }
  workingDirectory := "/"
  directory := { folders := [["data"]] }
  entries := { schema := some file, formula := "Sum(Amount)", pressed := ["Convert"] }

/-- A file with a schema. -/
def completeFile : ByteArray := "table,field,type\nSales,Amount,number\n".toUTF8

/-- A file without types. -/
def untypedFile : ByteArray := "table,field\nSales,Amount\n".toUTF8

/-- After a file that is not accepted, a schema still counts as loaded, but its entries are gone,
and a formula is converted with none. -/
theorem schemaRun_of_untypedFile :
    SchemaRun Csv.library [uploading completeFile, uploading untypedFile] ∧
      (sessionAfter Csv.library [uploading completeFile, uploading untypedFile]).schemaLoaded =
        true ∧
      ¬ HoldsAccepted Csv.library [uploading completeFile, uploading untypedFile] ∧
      conversionElement (.error (.unknownField "Amount")) ∈
        ((uploading untypedFile).outcome Csv.library
          (sessionAfter Csv.library [uploading completeFile])).elements := by
  have hrun := schemaRun_of_visits Csv.library [uploading completeFile, uploading untypedFile]
  have hreceived : received [uploading completeFile, uploading untypedFile] =
      [completeFile, untypedFile] := rfl
  have haccepts : Schema.accepts Csv.library completeFile = true := by decide +kernel
  have hrejects : Schema.accepts Csv.library untypedFile = false := by decide +kernel
  have hleft : Schema.leftBy Csv.library untypedFile = ∅ := by decide +kernel
  have hloaded : (sessionAfter Csv.library
      [uploading completeFile, uploading untypedFile]).schemaLoaded = true := by
    rw [hrun.loaded, hreceived, List.any_cons, haccepts]
    rfl
  have hschema : (sessionAfter Csv.library
      [uploading completeFile, uploading untypedFile]).schema = ∅ := by
    rw [hrun.schema, hreceived]
    exact hleft
  refine ⟨hrun, hloaded, fun hholds => ?_, ?_⟩
  · have haccepted : lastAccepted? Csv.library [uploading completeFile, uploading untypedFile] =
        some completeFile := by
      simp [lastAccepted?, hreceived, haccepts, hrejects]
    have hsame :=
      hrun.holds_iff.mp hholds completeFile haccepted untypedFile (by rw [hreceived]; rfl)
    rw [hleft] at hsame
    exact absurd hsame (by decide +kernel)
  · have hconverted := hrun.converted [uploading completeFile] (uploading untypedFile) rfl hloaded
      (by decide) (by decide)
    rw [hschema] at hconverted
    have hunknown : Dax.convert ∅ (uploading untypedFile).entries.formula =
        .error (.unknownField "Amount") := by
      decide +kernel
    rwa [hunknown] at hconverted

end QlikMigration.Page
