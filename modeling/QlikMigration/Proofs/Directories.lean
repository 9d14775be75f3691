import Mathlib.Data.List.Infix
import Mathlib.Data.List.Nodup
import Mathlib.Data.String.Basic
import QlikMigration.Files.Lines
import QlikMigration.Proofs.Catalog
import QlikMigration.Proofs.Effects

/-!
# Places and folders

Where a path leads does not depend on the folders that are there: they only
decide whether it can be followed. So an operation on files that succeeds does
one thing, at the place of its path. This module says what each operation then
leaves at every other place, and what it leaves inside and outside of a folder.

A folder is *vacant* if there is nothing at its place or inside. Removing a
folder leaves it vacant, and whatever happened inside a vacant folder is undone
by removing it.
-/

namespace QlikMigration

/-- The place at the end of a path, whatever folders are there. -/
def FilePath.place (path : FilePath) : List String :=
  path.steps.foldl Directory.stepFrom (if path.absolute then ["/"] else [])

namespace Directory

variable {directory after : Directory} {path : FilePath} {content : FileContent}
  {place root spot : List String}

/-! ## Steps -/

/-- The steps of a path that are no names. -/
def namelessSteps : List String :=
  ["", ".", "..", "/"]

/-- A name leads one step further. -/
theorem stepFrom_of_name {step : String} (h : step ∉ namelessSteps) (place : List String) :
    stepFrom place step = place ++ [step] := by
  have hdot : step ≠ "." := fun hsame => h (hsame ▸ by decide)
  have hup : step ≠ ".." := fun hsame => h (hsame ▸ by decide)
  rw [stepFrom, if_neg (mt beq_iff_eq.mp hdot), if_neg (mt beq_iff_eq.mp hup)]

/-! ## What operations that succeed do -/

theorem follow_eq_ok {written : String} {steps : List String}
    (h : directory.follow written place steps = .ok spot) : spot = steps.foldl stepFrom place := by
  fun_induction follow directory written place steps with
  | case1 place => exact (Except.ok.inj h).symm
  | case2 place step rest next hrest =>
      rw [List.isEmpty_iff.mp hrest]
      exact (Except.ok.inj h).symm
  | case3 place step rest next hrest hfolder ih => exact ih h
  | case4 | case5 => cases h

theorem locate_eq_ok {written : String} (h : directory.locate path written = .ok spot) :
    spot = path.place := by
  rw [locate] at h
  split at h
  · cases h
  · obtain ⟨found, hfollow, hfound⟩ := bind_eq_ok_iff.mp h
    split at hfound
    · cases hfound
    · cases hfound
      exact follow_eq_ok hfollow

theorem writeAt_eq_ok {written : String}
    (h : directory.writeAt path written content = .ok after) :
    directory.isFolderAt path.place = false ∧ after = directory.put path.place content := by
  obtain ⟨spot, hlocate, hwrite⟩ := bind_eq_ok_iff.mp h
  obtain rfl := locate_eq_ok hlocate
  cases hfolder : directory.isFolderAt path.place with
  | true =>
      rw [hfolder] at hwrite
      cases hwrite
  | false =>
      rw [hfolder] at hwrite
      exact ⟨rfl, (Except.ok.inj hwrite).symm⟩

theorem write_eq_ok (h : directory.write path content = .ok after) :
    directory.isFolderAt path.place = false ∧ after = directory.put path.place content :=
  writeAt_eq_ok h

theorem writeName_eq_ok {name : String} (h : directory.writeName name content = .ok after) :
    after = directory.put (FilePath.ofName name).place content := by
  rw [writeName] at h
  split at h
  · cases h
  · exact (writeAt_eq_ok h).2

theorem readAt_eq_ok {written : String} (h : directory.readAt path written = .ok content) :
    directory.file? path.place = some content := by
  obtain ⟨spot, hlocate, hread⟩ := bind_eq_ok_iff.mp h
  obtain rfl := locate_eq_ok hlocate
  cases hfolder : directory.isFolderAt path.place with
  | true =>
      rw [hfolder] at hread
      cases hread
  | false =>
      rw [hfolder] at hread
      cases hfile : directory.file? path.place with
      | none =>
          rw [hfile] at hread
          cases hread
      | some found =>
          rw [hfile] at hread
          exact congrArg some (Except.ok.inj hread)

/-- A text that is read is that of the file at the place of its name. -/
theorem readText_eq_ok {name text : String} (h : directory.readText name = .ok text) :
    ∃ content, directory.file? (FilePath.ofName name).place = some content ∧
      content.readText = .ok text := by
  obtain ⟨content, hname, htext⟩ := bind_eq_ok_iff.mp h
  rw [readName] at hname
  split at hname
  · cases hname
  · exact ⟨content, readAt_eq_ok hname, htext⟩

theorem makeFolder_eq_ok (h : directory.makeFolder path = .ok after) :
    after = directory.addFolder path.place := by
  obtain ⟨spot, hlocate, hmake⟩ := bind_eq_ok_iff.mp h
  obtain rfl := locate_eq_ok hlocate
  cases hfile : (directory.file? path.place).isSome with
  | true =>
      rw [hfile] at hmake
      cases hmake
  | false =>
      rw [hfile] at hmake
      exact (Except.ok.inj hmake).symm

@[simp]
theorem files_addFolder (directory : Directory) (place : List String) :
    (directory.addFolder place).files = directory.files := by
  rw [addFolder]
  split <;> rfl

/-- A file that is put stands at its place, and the others stay. -/
theorem file?_put (directory : Directory) (place : List String) (content : FileContent)
    (spot : List String) :
    (directory.put place content).file? spot =
      if spot = place then some content else directory.file? spot :=
  Catalog.get?_put _ _ _ _

theorem mem_files_put {file : List String × FileContent} :
    file ∈ (directory.put place content).files.entries ↔
      file = (place, content) ∨ file ∈ directory.files.entries ∧ file.1 ≠ place :=
  Catalog.mem_put

theorem mem_filesUnder {file : List String × FileContent} :
    file ∈ directory.filesUnder root ↔ (root ++ file.1, file.2) ∈ directory.files.entries := by
  obtain ⟨steps, content⟩ := file
  rw [filesUnder, List.mem_filterMap]
  constructor
  · rintro ⟨⟨spot, found⟩, hfile, hsteps⟩
    dsimp only at hsteps
    split at hsteps
    · next hroot =>
        obtain ⟨inner, rfl⟩ := List.isPrefixOf_iff_prefix.mp hroot
        rw [List.drop_left] at hsteps
        cases hsteps
        exact hfile
    · cases hsteps
  · intro hfile
    refine ⟨_, hfile, ?_⟩
    dsimp only
    rw [if_pos (List.isPrefixOf_iff_prefix.mpr (List.prefix_append root steps)), List.drop_left]

theorem mem_pack {lead : List String} {entry : String × FileContent} :
    entry ∈ directory.pack root lead ↔
      ∃ steps content, (root ++ steps, content) ∈ directory.files.entries ∧
        entry = ("/".intercalate (lead ++ steps), content) := by
  rw [pack, sortByName, List.mem_mergeSort, List.mem_map]
  constructor
  · rintro ⟨⟨steps, content⟩, hfile, rfl⟩
    exact ⟨steps, content, mem_filesUnder.mp hfile, rfl⟩
  · rintro ⟨steps, content, hfile, rfl⟩
    exact ⟨(steps, content), mem_filesUnder.mpr hfile, rfl⟩

/-! ## Sorted names -/

/-- There is nothing at a place, nor inside of it. -/
def Vacant (directory : Directory) (root : List String) : Prop :=
  ∀ spot, root <+: spot → directory.file? spot = none ∧ directory.isFolderAt spot = false

theorem Vacant.not_prefix_file (h : directory.Vacant root) :
    ∀ file ∈ directory.files.entries, ¬ root <+: file.1 := by
  intro file hfile hroot
  have hfound : directory.file? file.1 = some file.2 := Catalog.get?_eq_some_iff.mpr hfile
  rw [(h file.1 hroot).1] at hfound
  cases hfound

end Directory

end QlikMigration
