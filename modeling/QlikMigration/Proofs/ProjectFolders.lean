import QlikMigration.Proofs.DocumentShapes
import QlikMigration.Proofs.NormalLines
import QlikMigration.Proofs.Writing
import QlikMigration.Report.Project

/-!
# Where a report project lands

A report project is named after the first page of its analysis, and only spaces
and slashes are taken out of that name. So it is a single step, but this step
need not be a name. With an empty name or a single dot the project folder is the
output folder itself, and the archive becomes a member of itself. With two dots
it is the folder around the output folder: the project file and the report's
definition are then outside of the output folder, unless this is the root. With
every other name all files are inside.

If there was nothing in the project folder before, the archive has no members
but the files that were written for the project.
-/

namespace QlikMigration

open Text

namespace Directory

/-! ## Resolved places -/

/-- A place as a path leads to it: all steps that lead around stand at its start, and what is
behind them are names. -/
def Resolved (place : List String) : Prop :=
  ∃ base names, ((∀ step ∈ base, step = "..") ∨ base = ["/"]) ∧
    (∀ name ∈ names, name ≠ ".." ∧ name ≠ "/") ∧ place = base ++ names

/-- What two dots lead to from a resolved place. -/
theorem Resolved.stepFrom_up {place : List String} (h : Resolved place) :
    (place = ["/"] ∧ stepFrom place ".." = ["/"]) ∨
      ((∀ step ∈ place, step = "..") ∧ stepFrom place ".." = place ++ [".."]) ∨
      (∃ front name, name ≠ ".." ∧ name ≠ "/" ∧ Resolved front ∧ place = front ++ [name] ∧
        stepFrom place ".." = front) := by
  obtain ⟨base, names, hbase, hnames, rfl⟩ := h
  rcases List.eq_nil_or_concat names with rfl | ⟨front, name, rfl⟩
  · rw [List.append_nil]
    rcases hbase with hbase | rfl
    · refine Or.inr (Or.inl ⟨hbase, ?_⟩)
      rcases List.eq_nil_or_concat base with rfl | ⟨base, step, rfl⟩
      · rfl
      · obtain rfl : step = ".." := hbase step (by simp)
        simp [stepFrom]
    · exact Or.inl ⟨rfl, rfl⟩
  · obtain ⟨hup, hroot⟩ := hnames name (by simp)
    refine Or.inr (Or.inr ⟨base ++ front, name, hup, hroot, ⟨base, front, hbase, ?_, rfl⟩,
      by simp, by simp [stepFrom]⟩)
    exact fun other hother => hnames other (by simp [hother])

theorem Resolved.stepFrom {place : List String} (h : Resolved place) {step : String}
    (hstep : step ≠ "/") : Resolved (stepFrom place step) := by
  by_cases hdot : step = "."
  · subst hdot
    exact h
  · by_cases hup : step = ".."
    · subst hup
      rcases h.stepFrom_up with ⟨-, hnext⟩ | ⟨hall, hnext⟩ | ⟨front, name, -, -, hfront, -, hnext⟩
      · rw [hnext]
        exact ⟨["/"], [], Or.inr rfl, by simp, rfl⟩
      · rw [hnext]
        refine ⟨place ++ [".."], [], Or.inl ?_, by simp, by simp⟩
        intro step hmem
        rcases List.mem_append.mp hmem with hmem | hmem
        · exact hall step hmem
        · exact List.mem_singleton.mp hmem
      · rw [hnext]
        exact hfront
    · obtain ⟨base, names, hbase, hnames, rfl⟩ := h
      refine ⟨base, names ++ [step], hbase, ?_, by simp [Directory.stepFrom, hdot, hup]⟩
      intro name hmem
      rcases List.mem_append.mp hmem with hmem | hmem
      · exact hnames name hmem
      · rw [List.mem_singleton.mp hmem]
        exact ⟨hup, hstep⟩

theorem resolved_foldl_stepFrom {steps place : List String} (hsteps : "/" ∉ steps)
    (h : Resolved place) : Resolved (steps.foldl Directory.stepFrom place) := by
  induction steps generalizing place with
  | nil => exact h
  | cons step steps ih =>
      rw [List.mem_cons, not_or] at hsteps
      exact ih hsteps.2 (h.stepFrom (Ne.symm hsteps.1))

/-- A written path leads to a resolved place. -/
theorem resolved_place_ofText (written : String) : Resolved (FilePath.ofText written).place := by
  apply resolved_foldl_stepFrom
  · intro hmem
    obtain ⟨piece, hpiece, hslash⟩ := List.mem_map.mp (List.mem_filter.mp hmem).1
    have hfree := Script.not_mem_of_mem_splitOn hpiece
    rw [← String.toList_inj, String.toList_ofList] at hslash
    exact hfree (hslash ▸ by decide)
  · split
    · exact ⟨["/"], [], Or.inr rfl, by simp, rfl⟩
    · exact ⟨[], [], Or.inl (by simp), by simp, rfl⟩

/-- Steps that are names, each a single one. -/
def AreNames (steps : List String) : Prop :=
  ∀ step ∈ steps, step ∉ namelessSteps ∧ '/' ∉ step.toList

/-- A place strictly inside a folder: names lead there. -/
def Inside (root place : List String) : Prop :=
  ∃ rest, rest ≠ [] ∧ AreNames rest ∧ place = root ++ rest

/-- Two dots lead out of a folder, unless it is the root. -/
theorem not_inside_of_up {root : List String} {step : String} (h : Resolved root)
    (hroot : root ≠ ["/"]) : ¬ Inside root (Directory.stepFrom root ".." ++ [step]) := by
  rintro ⟨rest, hrest, hnames, hplace⟩
  rcases h.stepFrom_up with ⟨hsame, -⟩ | ⟨-, hnext⟩ | ⟨front, name, -, -, -, hfront, hnext⟩
  · exact hroot hsame
  · rw [hnext, List.append_assoc] at hplace
    have hup : ".." ∈ rest := by
      rw [← List.append_cancel_left hplace]
      exact List.mem_cons_self
    exact (hnames ".." hup).1 (by decide)
  · have hlength := congrArg List.length hplace
    rw [hnext, hfront] at hlength
    simp only [List.length_append, List.length_singleton] at hlength
    exact hrest (List.length_eq_zero_iff.mp (by omega))

end Directory

namespace FilePath

theorem place_child (path : FilePath) {step : String} (h : step ≠ "") :
    (path.child step).place = Directory.stepFrom path.place step := by
  by_cases hdot : step = "."
  · subst hdot
    rfl
  · rw [child, if_neg (by simp [h, hdot]), place, List.foldl_append]
    rfl

theorem place_child_of_name (path : FilePath) {step : String}
    (h : step ∉ Directory.namelessSteps) : (path.child step).place = path.place ++ [step] := by
  have hempty : step ≠ "" := fun hsame => h (hsame ▸ by decide)
  rw [place_child path hempty, Directory.stepFrom_of_name h]

end FilePath

namespace Report

open Directory (namelessSteps AreNames Inside Resolved Wrote)
open Json (eq_ok_of_toOption_eq_some)

/-! ## The places of a project -/

section Places

variable (outer : FilePath) (name : String)

/-- The place of the project file. -/
def projectFilePlace : List String :=
  ((outer.child name).child (name ++ ".pbip")).place

/-- The place of the report's definition. -/
def definitionPlace : List String :=
  (((outer.child name).child (name ++ ".Report")).child "definition.pbir").place

/-- The place of the archive. -/
def archivePlace : List String :=
  (outer.child (name ++ ".zip")).place

/-- The places at which a project is written. The archive is begun before it is filled. -/
def projectPlaces : List (List String) :=
  [projectFilePlace outer name, definitionPlace outer name, archivePlace outer name,
    archivePlace outer name]

/-- The files of a project, with the archive as it is begun. -/
def projectFiles (definition : Json.Value) : List (List String × FileContent) :=
  [(projectFilePlace outer name, .text (projectDocument name).pretty),
    (definitionPlace outer name, .text definition.pretty),
    (archivePlace outer name, .unfinished)]

end Places

variable {outer : FilePath} {name : String}

/-- A name with an ending is longer than a step that is no name. -/
theorem append_not_mem_namelessSteps {ending : String}
    (hending : ending ∈ [".pbip", ".Report", ".zip"]) (name : String) :
    name ++ ending ∉ namelessSteps := by
  intro hmem
  have hshort : ∀ step ∈ namelessSteps, step.toList.length ≤ 2 := by decide
  have hlong : ∀ ending ∈ [".pbip", ".Report", ".zip"], 3 ≤ ending.toList.length := by decide
  have hlength := hshort _ hmem
  have hlower := hlong ending hending
  rw [String.toList_append, List.length_append] at hlength
  omega

theorem projectFilePlace_eq :
    projectFilePlace outer name = (outer.child name).place ++ [name ++ ".pbip"] :=
  FilePath.place_child_of_name _ (append_not_mem_namelessSteps (by decide) name)

theorem definitionPlace_eq :
    definitionPlace outer name =
      (outer.child name).place ++ [name ++ ".Report", "definition.pbir"] := by
  rw [definitionPlace, FilePath.place_child_of_name _ (by decide),
    FilePath.place_child_of_name _ (append_not_mem_namelessSteps (by decide) name),
    List.append_assoc]
  rfl

theorem archivePlace_eq : archivePlace outer name = outer.place ++ [name ++ ".zip"] :=
  FilePath.place_child_of_name _ (append_not_mem_namelessSteps (by decide) name)

theorem slash_not_mem_fileName (dashboard : String) : '/' ∉ (fileName dashboard).toList := by
  rw [fileName, String.toList_ofList, mem_replaceChar_iff]
  rintro (⟨-, hne⟩ | ⟨-, hmem⟩)
  · exact hne rfl
  · cases List.mem_singleton.mp hmem

/-- Names lead from the output folder to the project folder, except for two dots. -/
theorem exists_place_child (hslash : '/' ∉ name.toList)
    (h : name ≠ ".." ∨ outer.place = ["/"]) :
    ∃ lead, AreNames lead ∧ (outer.child name).place = outer.place ++ lead := by
  by_cases hname : name ∈ namelessSteps
  · refine ⟨[], fun _ hmem => absurd hmem List.not_mem_nil, ?_⟩
    rw [List.append_nil]
    simp only [namelessSteps, List.mem_cons, List.not_mem_nil, or_false] at hname
    rcases hname with rfl | rfl | rfl | rfl
    · rfl
    · rfl
    · have hroot : outer.place = ["/"] := h.resolve_left fun hne => hne rfl
      rw [FilePath.place_child outer (by decide), hroot]
      rfl
    · exact absurd (by decide) hslash
  · refine ⟨[name], fun step hstep => ?_, FilePath.place_child_of_name outer hname⟩
    rw [List.mem_singleton.mp hstep]
    exact ⟨hname, hslash⟩

theorem areNames_cons_append {ending : String} {rest : List String} (hslash : '/' ∉ name.toList)
    (hending : ending ∈ [".pbip", ".Report", ".zip"]) (hrest : AreNames rest) :
    AreNames ((name ++ ending) :: rest) := by
  intro step hstep
  rcases List.mem_cons.mp hstep with rfl | hstep
  · refine ⟨append_not_mem_namelessSteps hending name, ?_⟩
    have hplain : ∀ ending ∈ [".pbip", ".Report", ".zip"], '/' ∉ ending.toList := by decide
    rw [String.toList_append, List.mem_append, not_or]
    exact ⟨hslash, hplain ending hending⟩
  · exact hrest step hstep

/-- The files of a project are inside the output folder. -/
theorem inside_of_mem_projectPlaces (hslash : '/' ∉ name.toList)
    (h : name ≠ ".." ∨ outer.place = ["/"]) :
    ∀ place ∈ projectPlaces outer name, Inside outer.place place := by
  obtain ⟨lead, hlead, hfolder⟩ := exists_place_child hslash h
  have hnil : AreNames [] := fun _ hmem => absurd hmem List.not_mem_nil
  have hinside : ∀ {rest : List String}, rest ≠ [] → AreNames rest →
      Inside outer.place ((outer.child name).place ++ rest) := by
    intro rest hne hrest
    refine ⟨lead ++ rest, fun hempty => hne (List.append_eq_nil_iff.mp hempty).2, ?_, ?_⟩
    · intro step hstep
      exact (List.mem_append.mp hstep).elim (hlead step) (hrest step)
    · rw [hfolder, List.append_assoc]
  have hproject : Inside outer.place (projectFilePlace outer name) := by
    rw [projectFilePlace_eq]
    exact hinside (List.cons_ne_nil _ _) (areNames_cons_append hslash (by decide) hnil)
  have hdefinition : Inside outer.place (definitionPlace outer name) := by
    rw [definitionPlace_eq]
    refine hinside (List.cons_ne_nil _ _) (areNames_cons_append hslash (by decide) ?_)
    intro step hstep
    rw [List.mem_singleton.mp hstep]
    decide
  have harchive : Inside outer.place (archivePlace outer name) :=
    ⟨_, List.cons_ne_nil _ _, areNames_cons_append hslash (by decide) hnil, archivePlace_eq⟩
  simp only [projectPlaces, List.forall_mem_cons]
  exact ⟨hproject, hdefinition, harchive, harchive, fun _ hmem => absurd hmem List.not_mem_nil⟩

/-- With two dots the project file is outside, unless the output folder is the root. -/
theorem not_inside_projectFilePlace (hresolved : Resolved outer.place)
    (hroot : outer.place ≠ ["/"]) : ¬ Inside outer.place (projectFilePlace outer "..") := by
  rw [projectFilePlace_eq, FilePath.place_child outer (by decide)]
  exact Directory.not_inside_of_up hresolved hroot

/-- The files of a project end in different letters. -/
theorem nodup_projectFiles (outer : FilePath) (name : String) (definition : Json.Value) :
    ((projectFiles outer name definition).map Prod.fst).Nodup := by
  apply List.Nodup.of_map fun place => place.getLast?.map fun step => step.toList.reverse.take 4
  simp [projectFiles, projectFilePlace_eq, definitionPlace_eq, archivePlace_eq]

/-! ## The files after a run -/

theorem writes_packFolder (folder archive : FilePath) :
    (packFolder folder archive).Writes [archive.place, archive.place] := by
  unfold packFolder
  refine (Effect.writes_write _ _ _).bind_cons fun _ => Effect.writes_change ?_
  intro before after h
  obtain ⟨place, -, hwrite⟩ := bind_eq_ok_iff.mp h
  exact ⟨_, (Directory.write_eq_ok hwrite).2⟩

theorem writes_assembleProject (analysis : Json.Value) (outer : FilePath) (name : String) :
    (assembleProject analysis outer name).Writes (projectPlaces outer name) := by
  unfold assembleProject
  refine (Effect.writes_makeFolder _ _).bind_nil fun _ => ?_
  refine (Effect.writes_makeFolder _ _).bind_nil fun _ => ?_
  refine (Effect.writes_write _ _ _).bind_cons fun _ => ?_
  refine (Effect.writes_makeFolder _ _).bind_nil fun _ => ?_
  refine (Effect.writes_ofResult _ _).bind_nil fun definition => ?_
  refine (Effect.writes_write _ _ _).bind_cons fun _ => ?_
  refine (writes_packFolder _ _).bind fun _ => ?_
  refine (Effect.writes_printLine _).bind_nil fun _ => ?_
  exact Effect.writes_pure _

/-- The leading steps of an archive's members: the last step of the folder. -/
def packLead (folder : FilePath) : List String :=
  folder.steps.drop folder.parent.steps.length

theorem packFolder_eq_ok {folder archive : FilePath} {world final : World}
    (h : (packFolder folder archive).perform world = (.ok (), final)) :
    final.directory = (world.directory.put archive.place .unfinished).put archive.place
      (.archive ((world.directory.put archive.place .unfinished).pack folder.place
        (packLead folder))) := by
  unfold packFolder at h
  rw [Effect.perform_change_bind_eq_ok_iff] at h
  obtain ⟨begun, hbegun, h⟩ := h
  obtain ⟨filled, hfilled, rfl⟩ := Effect.perform_change_eq_ok_iff.mp h
  obtain ⟨place, hplace, hfilled⟩ := bind_eq_ok_iff.mp hfilled
  obtain rfl := Directory.locate_eq_ok hplace
  obtain rfl := (Directory.write_eq_ok hbegun).2
  exact (Directory.write_eq_ok hfilled).2

/-- A project that is made has its three files written, of which the last is then filled. -/
theorem assembleProject_eq_ok {analysis : Json.Value} {path : String} {world final : World}
    (h : (assembleProject analysis outer name).perform world = (.ok path, final)) :
    ∃ definition begun, definitionDocument analysis = .ok definition ∧
      Wrote world.directory (projectFiles outer name definition) begun ∧
      final.directory = begun.put (archivePlace outer name)
        (.archive (begun.pack (outer.child name).place (packLead (outer.child name)))) := by
  unfold assembleProject at h
  rw [Effect.perform_change_bind_eq_ok_iff] at h
  obtain ⟨opened, hopened, h⟩ := h
  rw [Effect.perform_change_bind_eq_ok_iff] at h
  obtain ⟨nested, hnested, h⟩ := h
  rw [Effect.perform_change_bind_eq_ok_iff] at h
  obtain ⟨titled, htitled, h⟩ := h
  rw [Effect.perform_change_bind_eq_ok_iff] at h
  obtain ⟨reported, hreported, h⟩ := h
  rw [Effect.perform_ofResult_bind_eq_ok_iff] at h
  obtain ⟨definition, hdefinition, h⟩ := h
  rw [Effect.perform_change_bind_eq_ok_iff] at h
  obtain ⟨defined, hdefined, h⟩ := h
  obtain ⟨⟨⟩, packed, hpacked, h⟩ := Effect.perform_bind_eq_ok_iff.mp h
  rw [Effect.perform_printLine_bind] at h
  have hfinal : final.directory = packed.directory :=
    (congrArg (fun result => result.2.directory) h).symm
  have hfolders : Wrote world.directory [] nested := by
    rw [Wrote, Directory.makeFolder_eq_ok hnested, Directory.files_addFolder,
      Directory.makeFolder_eq_ok hopened, Directory.files_addFolder]
    rfl
  have hproject : Wrote nested [(projectFilePlace outer name, .text (projectDocument name).pretty)]
      titled :=
    congrArg Directory.files (Directory.write_eq_ok htitled).2
  have hreport : Wrote titled [] reported := by
    rw [Wrote, Directory.makeFolder_eq_ok hreported, Directory.files_addFolder]
    rfl
  have hdefined : Wrote reported [(definitionPlace outer name, .text definition.pretty)] defined :=
    congrArg Directory.files (Directory.write_eq_ok hdefined).2
  have hbegun : Wrote defined [(archivePlace outer name, .unfinished)]
      (defined.put (archivePlace outer name) .unfinished) :=
    rfl
  refine ⟨definition, _, hdefinition,
    (((hfolders.trans hproject).trans hreport).trans hdefined).trans hbegun, ?_⟩
  rw [hfinal]
  exact packFolder_eq_ok hpacked

/-- The name of the first page, if it is a text. -/
def firstPageName? (analysis : Json.Value) : Option String :=
  match analysis.member? "pages" with
  | some (.array (page :: _)) =>
    match page.member? "name" with
    | some (.text name) => some name
    | _ => none
  | _ => none

theorem getD_of_member? {value found : Json.Value} {key : String}
    (h : value.member? key = some found) (default : Json.Value) :
    value.getD key default = .ok found := by
  cases value with
  | object members =>
      rw [Json.Value.getD, h]
      rfl
  | _ => cases h

/-- A dashboard is named after its first page. -/
theorem dashboardName_of_firstPageName? {analysis : Json.Value} {dashboard : String}
    (h : firstPageName? analysis = some dashboard) :
    dashboardName analysis = .ok (.text dashboard) := by
  rw [firstPageName?] at h
  split at h
  · next page rest hpages =>
      split at h
      · next name hname =>
          cases h
          rw [dashboardName, getD_of_member? hpages]
          show page.getD "name" (.text "Dashboard") = _
          rw [getD_of_member? hname]
      · cases h
  · cases h

/-- What an archive has as a member for a file of a project that is in the project folder. -/
def IsMember (outer : FilePath) (name : String) (definition : Json.Value)
    (member : String × FileContent) : Prop :=
  ∃ steps content,
    ((outer.child name).place ++ steps, content) ∈ projectFiles outer name definition ∧
    member = ("/".intercalate (packLead (outer.child name) ++ steps), content)

theorem packLead_child_of_name (outer : FilePath) (h : name ∉ namelessSteps) :
    packLead (outer.child name) = [name] := by
  have hnamed : ¬ (name == "" || name == ".") = true := by
    rw [Bool.or_eq_true, beq_iff_eq, beq_iff_eq]
    exact fun hor => h (hor.elim (· ▸ by decide) (· ▸ by decide))
  rw [packLead, FilePath.parent, FilePath.child, if_neg hnamed]
  simp

/-- The archive is beside the project folder, under a longer name. -/
theorem not_isPrefix_archivePlace (outer : FilePath) (h : name ∉ namelessSteps) :
    ¬ (outer.child name).place <+: archivePlace outer name := by
  rw [FilePath.place_child_of_name outer h, archivePlace_eq, List.prefix_append_right_inj,
    List.cons_prefix_cons]
  rintro ⟨hsame, -⟩
  have hlength := congrArg (fun step => step.toList.length) hsame
  simp at hlength

/-- With a proper name, the project file and the definition are members, and nothing else. -/
theorem isMember_iff {definition : Json.Value} (hslash : '/' ∉ name.toList)
    (hname : name ∉ ["", ".", ".."]) (member : String × FileContent) :
    IsMember outer name definition member ↔
      member = ("/".intercalate [name, name ++ ".pbip"], .text (projectDocument name).pretty) ∨
      member = ("/".intercalate [name, name ++ ".Report", "definition.pbir"],
        .text definition.pretty) := by
  have hplain : name ∉ namelessSteps := by
    simp only [namelessSteps, List.mem_cons, List.not_mem_nil, or_false, not_or] at hname ⊢
    refine ⟨hname.1, hname.2.1, hname.2.2, ?_⟩
    rintro rfl
    exact hslash (by decide)
  have hlead := packLead_child_of_name outer hplain
  constructor
  · rintro ⟨steps, content, hfile, rfl⟩
    rw [hlead]
    simp only [projectFiles, projectFilePlace_eq, definitionPlace_eq, archivePlace_eq,
      List.mem_cons, List.not_mem_nil, or_false, Prod.mk.injEq, List.append_cancel_left_eq] at hfile
    rcases hfile with ⟨rfl, rfl⟩ | ⟨rfl, rfl⟩ | ⟨harchive, -⟩
    · exact Or.inl rfl
    · exact Or.inr rfl
    · refine absurd ⟨steps, ?_⟩ (not_isPrefix_archivePlace outer hplain)
      rw [archivePlace_eq, harchive]
  · rintro (rfl | rfl)
    · exact ⟨[name ++ ".pbip"], .text (projectDocument name).pretty, by
        simp [projectFiles, projectFilePlace_eq], by rw [hlead]; rfl⟩
    · exact ⟨[name ++ ".Report", "definition.pbir"], .text definition.pretty, by
        simp [projectFiles, definitionPlace_eq], by rw [hlead]; rfl⟩

/-- What making a project does with the files of a directory: which it writes, when they are
inside the output folder, and what is then in the archive. -/
structure ProjectRun (outer : FilePath) (name : String) (analysis : Json.Value)
    (before : Directory) (run : Except ProjectError String × World) : Prop where
  written : ∃ written, Wrote before written run.2.directory ∧
    written.map Prod.fst <+: projectPlaces outer name ∧
    (run.1.isOk = true → written.map Prod.fst = projectPlaces outer name) ∧
    ((∀ file ∈ written, Inside outer.place file.1) ↔
      written = [] ∨ name ≠ ".." ∨ outer.place = ["/"])
  archived : run.1.isOk = true → before.Vacant (outer.child name).place →
    ∃ definition members, definitionDocument analysis = .ok definition ∧
      run.2.directory.file? (archivePlace outer name) = some (.archive members) ∧
      (∀ member, member ∈ members ↔ IsMember outer name definition member) ∧
      (name ∉ ["", ".", ".."] → ∀ member, member ∈ members ↔
        member = ("/".intercalate [name, name ++ ".pbip"], .text (projectDocument name).pretty) ∨
        member = ("/".intercalate [name, name ++ ".Report", "definition.pbir"],
          .text definition.pretty))

theorem projectRun_assembleProject (analysis : Json.Value) (hresolved : Resolved outer.place)
    (hslash : '/' ∉ name.toList) (world : World) :
    ProjectRun outer name analysis world.directory
      ((assembleProject analysis outer name).perform world) := by
  refine ⟨?_, fun hok hvacant => ?_⟩
  · obtain ⟨written, hwrote, hplaces, hall⟩ := writes_assembleProject analysis outer name world
    refine ⟨written, hwrote, hplaces, hall, fun hinside => ?_, fun h file hfile => ?_⟩
    · -- The project file is written first, so a run that wrote anything has written it.
      by_contra hcontra
      simp only [not_or, not_not] at hcontra
      obtain ⟨hwritten, rfl, hroot⟩ := hcontra
      obtain ⟨first, rest, rfl⟩ := List.exists_cons_of_ne_nil hwritten
      have hfirst : first.1 = projectFilePlace outer ".." := (List.cons_prefix_cons.mp hplaces).1
      have hnot := not_inside_projectFilePlace hresolved hroot
      exact hnot (hfirst ▸ hinside first List.mem_cons_self)
    · rcases h with rfl | h
      · cases hfile
      · exact inside_of_mem_projectPlaces hslash h _ (hplaces.subset (List.mem_map_of_mem hfile))
  · obtain ⟨path, hperform⟩ := Effect.exists_perform_eq_ok hok
    obtain ⟨definition, begun, hdefinition, hwrote, hfinal⟩ := assembleProject_eq_ok hperform
    have hmembers : ∀ member, member ∈ begun.pack (outer.child name).place
        (packLead (outer.child name)) ↔ IsMember outer name definition member :=
      fun _ => hwrote.mem_pack_iff (nodup_projectFiles outer name definition) hvacant
    refine ⟨definition, _, hdefinition, ?_, hmembers, fun hname member => ?_⟩
    · rw [hfinal, Directory.file?_put]
      exact if_pos rfl
    · rw [hmembers, isMember_iff hslash hname]

/-- For an analysis whose first page is named by a text, all files of the project are written
inside the output folder unless the name is two dots; then the first of them is outside, unless
the output folder is the root. In a project folder that was not there before, the archive has
only files of this project. -/
theorem projectRun_createProject {source output text dashboard : String} {world : World}
    {analysis : Json.Value} (htext : world.directory.readText source = .ok text)
    (hanalysis : Json.read text.toList = .ok analysis)
    (hname : firstPageName? analysis = some dashboard) :
    ProjectRun (FilePath.ofText output) (fileName dashboard) analysis world.directory
      ((createProject source output).perform world) := by
  have hdashboard : (do (← dashboardName analysis).asText) = .ok dashboard := by
    rw [dashboardName_of_firstPageName? hname]
    rfl
  have hperform : (createProject source output).perform world =
      (assembleProject analysis (FilePath.ofText output) (fileName dashboard)).perform world := by
    rw [createProject, Effect.perform_look_bind_of_ok htext,
      Effect.perform_ofResult_bind_of_ok hanalysis, Effect.perform_ofResult_bind_of_ok hdashboard]
  rw [hperform]
  exact projectRun_assembleProject analysis (Directory.resolved_place_ofText output)
    (slash_not_mem_fileName dashboard) world

/-- An analysis whose page is named by two dots. -/
def upText : String :=
  "\x7b\"pages\": [\x7b\"name\": \"..\"\x7d]\x7d"

/-- A world with this analysis. -/
def upWorld : World :=
  { directory := { files := .ofList [(["a.json"], .text upText)] } }

/-- The same world with a plain file where the folder of the report would be. -/
def blockedWorld : World :=
  { directory := { files := .ofList [(["a.json"], .text upText), (["...Report"], .text "kept")] } }

/-- Two dots lead out of the output folder, also where the run then fails. -/
theorem projectRun_upWorld :
    upWorld.directory.readText "a.json" = .ok upText ∧
      (Json.read upText.toList).toOption.bind firstPageName? = some ".." ∧
      ((createProject "a.json" "out").perform upWorld).1.isOk = true ∧
      ∃ written, Wrote upWorld.directory written
          ((createProject "a.json" "out").perform upWorld).2.directory ∧
        written.map Prod.fst = [["...pbip"], ["...Report", "definition.pbir"],
          ["out", "...zip"], ["out", "...zip"]] ∧
        (¬ ∀ file ∈ written, Inside ["out"] file.1) ∧
        ((createProject "a.json" "out").perform blockedWorld).1.isOk = false ∧
        (((createProject "a.json" "out").perform blockedWorld).2.directory.file?
          ["...pbip"]).isSome = true := by
  have htext : upWorld.directory.readText "a.json" = .ok upText :=
    eq_ok_of_toOption_eq_some (by decide +kernel)
  have hread : (Json.read upText.toList).toOption.bind firstPageName? = some ".." := by
    decide +kernel
  have hok : ((createProject "a.json" "out").perform upWorld).1.isOk = true := by decide +kernel
  refine ⟨htext, hread, hok, ?_⟩
  obtain ⟨analysis, hanalysis, hname⟩ := Option.bind_eq_some_iff.mp hread
  have hrun : ProjectRun (FilePath.ofText "out") (fileName "..") analysis upWorld.directory
      ((createProject "a.json" "out").perform upWorld) :=
    projectRun_createProject htext (eq_ok_of_toOption_eq_some hanalysis) hname
  obtain ⟨written, hwrote, -, hall, hinside⟩ := hrun.written
  have hplaces : written.map Prod.fst = [["...pbip"], ["...Report", "definition.pbir"],
      ["out", "...zip"], ["out", "...zip"]] :=
    (hall hok).trans (by decide)
  have hout : (FilePath.ofText "out").place = ["out"] := by decide
  rw [hout] at hinside
  refine ⟨written, hwrote, hplaces, fun hall => ?_, by decide +kernel, by decide +kernel⟩
  rcases hinside.mp hall with rfl | hname | hroot
  · cases hplaces
  · exact hname (by decide)
  · exact absurd hroot (by decide)

end Report

end QlikMigration
