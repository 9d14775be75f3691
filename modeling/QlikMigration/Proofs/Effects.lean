import QlikMigration.Outside

/-!
# Effects in sequence

What a sequence of effects does follows from what its parts do: it succeeds
exactly if all of them do, and it fails where the first of them fails, in the
world that this one leaves. Two properties of effects are carried through
sequences that way: by which causes an effect may fail, and that it stays in a
folder, so that nothing outside of it changes whether the effect fails or not.
-/

namespace QlikMigration

variable {ε δ α β : Type}

/-- A computation in two parts succeeds exactly if both parts do. -/
theorem bind_eq_ok_iff {first : Except ε α} {second : α → Except ε β} {result : β} :
    first >>= second = .ok result ↔
      ∃ middle, first = .ok middle ∧ second middle = .ok result := by
  cases first with
  | ok middle => exact ⟨fun h => ⟨middle, rfl, h⟩, fun ⟨_, hmiddle, h⟩ => by cases hmiddle; exact h⟩
  | error failure => exact ⟨nofun, fun ⟨_, hmiddle, _⟩ => nomatch hmiddle⟩

namespace Effect

variable {effect : Effect ε α} {next : α → Effect ε β} {world final : World}

theorem perform_bind (effect : Effect ε α) (next : α → Effect ε β) (world : World) :
    (effect >>= next).perform world =
      match effect.perform world with
      | (.ok a, after) => (next a).perform after
      | (.error cause, after) => (.error cause, after) := by
  have hbind : (effect >>= next).perform world =
      (ExceptT.bindCont next (effect.perform world).1).run (effect.perform world).2 := rfl
  rw [hbind]
  cases effect.perform world with
  | mk result after => cases result <;> rfl

/-- Two effects in sequence succeed exactly if both do. -/
theorem perform_bind_eq_ok_iff {b : β} :
    (effect >>= next).perform world = (.ok b, final) ↔
      ∃ a after, effect.perform world = (.ok a, after) ∧
        (next a).perform after = (.ok b, final) := by
  rw [perform_bind]
  constructor
  · intro h
    cases hfirst : effect.perform world with
    | mk result after =>
        rw [hfirst] at h
        cases result with
        | error cause => cases h
        | ok a => exact ⟨a, after, rfl, h⟩
  · rintro ⟨a, after, hfirst, h⟩
    rw [hfirst]
    exact h

/-- Two effects in sequence fail where the first of them fails. -/
theorem perform_bind_eq_error_iff {cause : ε} :
    (effect >>= next).perform world = (.error cause, final) ↔
      effect.perform world = (.error cause, final) ∨
        ∃ a after, effect.perform world = (.ok a, after) ∧
          (next a).perform after = (.error cause, final) := by
  rw [perform_bind]
  constructor
  · intro h
    cases hfirst : effect.perform world with
    | mk result after =>
        rw [hfirst] at h
        cases result with
        | error reason =>
            cases h
            exact Or.inl rfl
        | ok a => exact Or.inr ⟨a, after, rfl, h⟩
  · rintro (hfirst | ⟨a, after, hfirst, h⟩)
    · rw [hfirst]
    · rw [hfirst]
      exact h

theorem exists_perform_eq_ok (h : (effect.perform world).1.isOk = true) :
    ∃ a, effect.perform world = (.ok a, (effect.perform world).2) := by
  cases hresult : (effect.perform world).1 with
  | error cause =>
      rw [hresult] at h
      cases h
  | ok a => exact ⟨a, Prod.ext hresult rfl⟩

theorem perform_change (failed : FileError → ε)
    (write : Directory → Except FileError Directory) (world : World) :
    (change failed write).perform world =
      match write world.directory with
      | .ok directory => (.ok (), { world with directory })
      | .error cause => (.error (failed cause), world) := by
  show StateT.run (ExceptT.run (match write world.directory with
    | .ok directory => modify fun world => { world with directory }
    | .error cause => throw (failed cause) : Effect ε Unit)) world = _
  cases write world.directory <;> rfl

theorem perform_change_eq_ok_iff {failed : FileError → ε}
    {write : Directory → Except FileError Directory} :
    (change failed write).perform world = (.ok (), final) ↔
      ∃ directory, write world.directory = .ok directory ∧ final = { world with directory } := by
  rw [perform_change]
  cases write world.directory with
  | error cause => simp
  | ok directory => simp [eq_comm]

/-- A change followed by an effect succeeds exactly if the effect does on the changed files. -/
theorem perform_change_bind_eq_ok_iff {failed : FileError → ε}
    {write : Directory → Except FileError Directory} {next : Unit → Effect ε β} {b : β} :
    (change failed write >>= next).perform world = (.ok b, final) ↔
      ∃ directory, write world.directory = .ok directory ∧
        (next ()).perform { world with directory } = (.ok b, final) := by
  rw [perform_bind_eq_ok_iff]
  constructor
  · rintro ⟨⟨⟩, after, hchange, h⟩
    obtain ⟨directory, hwrite, rfl⟩ := perform_change_eq_ok_iff.mp hchange
    exact ⟨directory, hwrite, h⟩
  · rintro ⟨directory, hwrite, h⟩
    exact ⟨(), _, perform_change_eq_ok_iff.mpr ⟨directory, hwrite, rfl⟩, h⟩

theorem perform_ofResult (f : δ → ε) (result : Except δ α) (world : World) :
    (ofResult f result).perform world = (result.mapError f, world) := by
  cases result <;> rfl

theorem perform_ofResult_bind_of_ok {f : δ → ε} {result : Except δ α} {a : α}
    (h : result = .ok a) (next : α → Effect ε β) (world : World) :
    (ofResult f result >>= next).perform world = (next a).perform world := by
  rw [perform_bind, perform_ofResult, h]
  rfl

/-- A result followed by an effect succeeds exactly if the result is one and the effect does. -/
theorem perform_ofResult_bind_eq_ok_iff {f : δ → ε} {result : Except δ α} {b : β} :
    (ofResult f result >>= next).perform world = (.ok b, final) ↔
      ∃ a, result = .ok a ∧ (next a).perform world = (.ok b, final) := by
  constructor
  · intro h
    cases result with
    | error cause => cases h
    | ok a => exact ⟨a, rfl, h⟩
  · rintro ⟨a, hresult, h⟩
    rw [perform_ofResult_bind_of_ok hresult, h]

theorem perform_look (failed : FileError → ε) (read : Directory → Except FileError α)
    (world : World) :
    (look failed read).perform world = ((read world.directory).mapError failed, world) := by
  have hget : (get : Effect ε World).perform world = (.ok world, world) := rfl
  rw [look, perform_bind, hget]
  dsimp only
  cases read world.directory <;> rfl

theorem perform_look_bind_of_ok {failed : FileError → ε}
    {read : Directory → Except FileError α} {a : α} (h : read world.directory = .ok a)
    (next : α → Effect ε β) :
    (look failed read >>= next).perform world = (next a).perform world := by
  rw [perform_bind, perform_look, h]
  rfl

/-- A look at the files followed by an effect succeeds exactly if something is found and the
effect succeeds with it. -/
theorem perform_look_bind_eq_ok_iff {failed : FileError → ε}
    {read : Directory → Except FileError α} {b : β} :
    (look failed read >>= next).perform world = (.ok b, final) ↔
      ∃ a, read world.directory = .ok a ∧ (next a).perform world = (.ok b, final) := by
  constructor
  · intro h
    cases hread : read world.directory with
    | error cause =>
        rw [perform_bind, perform_look, hread] at h
        cases h
    | ok a =>
        rw [perform_look_bind_of_ok hread] at h
        exact ⟨a, rfl, h⟩
  · rintro ⟨a, hread, h⟩
    rw [perform_look_bind_of_ok hread, h]

theorem perform_printLine_bind (text : String) (next : Unit → Effect ε β) (world : World) :
    (printLine text >>= next).perform world =
      (next ()).perform { world with printed := world.printed ++ text ++ "\n" } :=
  rfl

/-- An effect all of whose failures have a property. -/
def FailsOnly (p : ε → Prop) (effect : Effect ε α) : Prop :=
  ∀ world cause final, effect.perform world = (.error cause, final) → p cause

theorem FailsOnly.bind {p : ε → Prop} (hfirst : effect.FailsOnly p)
    (hnext : ∀ a, (next a).FailsOnly p) : (effect >>= next).FailsOnly p := by
  intro world cause final h
  obtain hfailed | ⟨a, after, -, hfailed⟩ := perform_bind_eq_error_iff.mp h
  · exact hfirst world cause final hfailed
  · exact hnext a after cause final hfailed

/-- An effect that leaves everything outside a folder as it is, whether it fails or not. -/
def Confined (place : List String) (effect : Effect ε α) : Prop :=
  ∀ world, (effect.perform world).2.directory.removeTree place =
    world.directory.removeTree place

theorem Confined.bind {place : List String} (hfirst : effect.Confined place)
    (hnext : ∀ a, (next a).Confined place) : (effect >>= next).Confined place := by
  intro world
  have hworld := hfirst world
  rw [perform_bind]
  cases hperform : effect.perform world with
  | mk result after =>
      rw [hperform] at hworld
      cases result with
      | error cause => exact hworld
      | ok a => exact (hnext a after).trans hworld

end Effect

end QlikMigration
