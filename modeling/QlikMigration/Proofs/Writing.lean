import QlikMigration.Proofs.Directories

/-!
# Which files an effect writes

An effect may fail halfway, and the files it has written by then stay. So an
effect that is to write at some places, one after the other, has written at the
first of them once it is over, and at all of them if it succeeded. Sequences of
effects write at the places of the first and then at those of the second.

A file is written also if it is written as it was, so the places tell more than
a comparison of the files before and after.
-/

namespace QlikMigration

namespace Directory

variable {before after : Directory} {spot : List String}

/-- Puts files one after the other. -/
def puts (directory : Directory) (written : List (List String × FileContent)) : Directory :=
  written.foldl (fun directory file => directory.put file.1 file.2) directory

/-- Some files were put, in this order, and the others are as before. -/
def Wrote (before : Directory) (written : List (List String × FileContent))
    (after : Directory) : Prop :=
  after.files = (before.puts written).files

theorem files_puts_congr {written : List (List String × FileContent)} {directory other : Directory}
    (h : directory.files = other.files) :
    (directory.puts written).files = (other.puts written).files := by
  induction written generalizing directory other with
  | nil => exact h
  | cons file written ih =>
      apply ih
      simp only [put, h]

theorem Wrote.trans {middle : Directory} {written later : List (List String × FileContent)}
    (hfirst : Wrote before written middle) (hlater : Wrote middle later after) :
    Wrote before (written ++ later) after := by
  rw [Wrote, puts, List.foldl_append]
  exact Eq.trans hlater (files_puts_congr hfirst)

/-- A place at which nothing was written has the file it had. -/
theorem Wrote.file?_eq {written : List (List String × FileContent)}
    (h : Wrote before written after) (hspot : spot ∉ written.map Prod.fst) :
    after.file? spot = before.file? spot := by
  rw [file?, h, ← file?]
  clear h
  induction written generalizing before with
  | nil => rfl
  | cons file written ih =>
      rw [List.map_cons, List.mem_cons, not_or] at hspot
      exact (ih hspot.2).trans ((file?_put _ _ _ _).trans (if_neg hspot.1))

/-- After files were put at different places, these are there, and those that were at other
places. -/
theorem Wrote.mem_files_iff {written : List (List String × FileContent)}
    (h : Wrote before written after) (hnodup : (written.map Prod.fst).Nodup)
    {file : List String × FileContent} :
    file ∈ after.files.entries ↔
      file ∈ written ∨ file ∈ before.files.entries ∧ file.1 ∉ written.map Prod.fst := by
  rw [h]
  clear h
  induction written generalizing before with
  | nil => simp [puts]
  | cons first written ih =>
      rw [List.map_cons, List.nodup_cons] at hnodup
      have hstep : file ∈ (before.puts (first :: written)).files.entries ↔
          file ∈ written ∨ file ∈ (before.put first.1 first.2).files.entries ∧
            file.1 ∉ written.map Prod.fst := ih hnodup.2
      rw [hstep, mem_files_put, List.map_cons, List.mem_cons, List.mem_cons, not_or]
      constructor
      · rintro (hlater | ⟨rfl | ⟨hbefore, hfirst⟩, hlater⟩)
        · exact Or.inl (Or.inr hlater)
        · exact Or.inl (Or.inl rfl)
        · exact Or.inr ⟨hbefore, hfirst, hlater⟩
      · rintro ((rfl | hlater) | ⟨hbefore, hfirst, hlater⟩)
        · exact Or.inr ⟨Or.inl rfl, hnodup.1⟩
        · exact Or.inl hlater
        · exact Or.inr ⟨Or.inr ⟨hbefore, hfirst⟩, hlater⟩

/-- An archive of a folder in which nothing was before has only files that were written. -/
theorem Wrote.mem_pack_iff {written : List (List String × FileContent)} {root lead : List String}
    (h : Wrote before written after) (hnodup : (written.map Prod.fst).Nodup)
    (hvacant : before.Vacant root) {entry : String × FileContent} :
    entry ∈ after.pack root lead ↔ ∃ steps content, (root ++ steps, content) ∈ written ∧
      entry = ("/".intercalate (lead ++ steps), content) := by
  have hnew : ∀ steps content, (root ++ steps, content) ∈ after.files.entries ↔
      (root ++ steps, content) ∈ written := by
    intro steps content
    rw [h.mem_files_iff hnodup]
    refine or_iff_left fun hold => ?_
    exact hvacant.not_prefix_file _ hold.1 (List.prefix_append root steps)
  simp only [mem_pack, hnew]

end Directory

namespace Effect

variable {ε δ α β : Type} {effect : Effect ε α} {next : α → Effect ε β}
  {places later : List (List String)} {place : List String} {failed : FileError → ε}
  {write : Directory → Except FileError Directory}

/-- An effect that writes at some places, one after the other: at the first of them, or at all
if it succeeds. -/
def Writes (places : List (List String)) (effect : Effect ε α) : Prop :=
  ∀ world, ∃ written, Directory.Wrote world.directory written (effect.perform world).2.directory ∧
    written.map Prod.fst <+: places ∧
    ((effect.perform world).1.isOk = true → written.map Prod.fst = places)

theorem Writes.bind (hfirst : effect.Writes places) (hnext : ∀ a, (next a).Writes later) :
    (effect >>= next).Writes (places ++ later) := by
  intro world
  obtain ⟨written, hwrote, hplaces, hall⟩ := hfirst world
  rw [perform_bind]
  cases hperform : effect.perform world with
  | mk result after =>
      rw [hperform] at hwrote hall
      cases result with
      | error cause =>
          exact ⟨written, hwrote, hplaces.trans (List.prefix_append _ _),
            fun hok => absurd hok Bool.false_ne_true⟩
      | ok a =>
          obtain ⟨further, hfurther, hlater, hlast⟩ := hnext a after
          have hwhole : written.map Prod.fst = places := hall rfl
          refine ⟨written ++ further, hwrote.trans hfurther, ?_, fun hok => ?_⟩
          · rw [List.map_append, hwhole]
            exact (List.prefix_append_right_inj places).mpr hlater
          · rw [List.map_append, hwhole, hlast hok]

/-- What writes nowhere may come first. -/
theorem Writes.bind_nil (hfirst : effect.Writes []) (hnext : ∀ a, (next a).Writes later) :
    (effect >>= next).Writes later :=
  hfirst.bind hnext

theorem Writes.bind_cons (hfirst : effect.Writes [place]) (hnext : ∀ a, (next a).Writes later) :
    (effect >>= next).Writes (place :: later) :=
  hfirst.bind hnext

/-- An effect that leaves the files alone writes nowhere. -/
theorem writes_nil (h : ∀ world, (effect.perform world).2.directory.files = world.directory.files) :
    effect.Writes [] :=
  fun world => ⟨[], h world, List.nil_prefix, fun _ => rfl⟩

theorem writes_printLine (text : String) : (printLine text : Effect ε Unit).Writes [] :=
  writes_nil fun _ => rfl

theorem writes_pure (a : α) : (pure a : Effect ε α).Writes [] :=
  writes_nil fun _ => rfl

theorem writes_ofResult (f : δ → ε) (result : Except δ α) : (ofResult f result).Writes [] :=
  writes_nil fun world => by rw [perform_ofResult]

theorem writes_look (failed : FileError → ε) (read : Directory → Except FileError α) :
    (look failed read).Writes [] :=
  writes_nil fun world => by rw [perform_look]

/-- A change that puts one file writes at its place. -/
theorem writes_change (h : ∀ {before after}, write before = .ok after →
    ∃ content, after = before.put place content) : (change failed write).Writes [place] := by
  intro world
  rw [perform_change]
  cases hwrite : write world.directory with
  | error cause => exact ⟨[], rfl, List.nil_prefix, fun hok => absurd hok Bool.false_ne_true⟩
  | ok directory =>
      obtain ⟨content, rfl⟩ := h hwrite
      exact ⟨[(place, content)], rfl, List.prefix_refl _, fun _ => rfl⟩

theorem writes_write (failed : FileError → ε) (path : FilePath) (content : FileContent) :
    (change failed (·.write path content)).Writes [path.place] :=
  writes_change fun h => ⟨content, (Directory.write_eq_ok h).2⟩

theorem writes_writeName (failed : FileError → ε) (name : String) (content : FileContent) :
    (change failed (·.writeName name content)).Writes [(FilePath.ofName name).place] :=
  writes_change fun h => ⟨content, Directory.writeName_eq_ok h⟩

theorem writes_makeFolder (failed : FileError → ε) (path : FilePath) :
    (change failed (·.makeFolder path)).Writes [] := by
  refine writes_nil fun world => ?_
  rw [perform_change]
  cases hmake : world.directory.makeFolder path with
  | error cause => rfl
  | ok directory =>
      dsimp only
      rw [Directory.makeFolder_eq_ok hmake, Directory.files_addFolder]

end Effect

end QlikMigration
