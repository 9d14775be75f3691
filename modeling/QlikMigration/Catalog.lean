/-!
# Catalogs

A catalog holds entries under names, in the order in which the names first came
up and each name once. Putting an entry under a known name replaces it in its
place; putting one under a new name adds it at the end. The order is part of
every answer that lists a catalog. Names are texts unless said otherwise.
-/

namespace QlikMigration

universe u

variable {κ : Type} [DecidableEq κ] {α : Type u}

/-- Puts an entry under a name: in place if the name is known, else at the end. -/
def putEntry (name : κ) (value : α) : List (κ × α) → List (κ × α)
  | [] => [(name, value)]
  | entry :: rest =>
    if entry.1 = name then (name, value) :: rest else entry :: putEntry name value rest

/-- A new name goes to the end, a known one stays where it is. -/
theorem map_fst_putEntry (name : κ) (value : α) (entries : List (κ × α)) :
    (putEntry name value entries).map Prod.fst =
      if name ∈ entries.map Prod.fst then entries.map Prod.fst
      else entries.map Prod.fst ++ [name] := by
  induction entries with
  | nil => simp [putEntry]
  | cons entry rest ih =>
    unfold putEntry
    split
    · next h => simp [h]
    · next h =>
      simp only [List.map_cons, List.mem_cons]
      rw [ih]
      have hne : name ≠ entry.1 := fun heq => h heq.symm
      by_cases hmem : name ∈ rest.map Prod.fst <;> simp [hne, hmem]

theorem nodup_putEntry {entries : List (κ × α)} (h : (entries.map Prod.fst).Nodup) (name : κ)
    (value : α) : ((putEntry name value entries).map Prod.fst).Nodup := by
  rw [map_fst_putEntry]
  split
  · exact h
  · next hnew =>
    refine List.nodup_append.mpr ⟨h, List.nodup_cons.mpr ⟨List.not_mem_nil, List.nodup_nil⟩, ?_⟩
    intro known hknown added hadded heq
    rw [List.mem_singleton] at hadded
    exact hnew (hadded ▸ heq ▸ hknown)

/-- Named entries in the order of first use. -/
structure Catalog (α : Type u) (κ : Type := String) where
  entries : List (κ × α)
  /-- No name comes up twice. -/
  nodup : (entries.map Prod.fst).Nodup
  deriving DecidableEq, Repr

namespace Catalog

/-- A catalog without entries. -/
instance : EmptyCollection (Catalog α κ) :=
  ⟨⟨[], List.nodup_nil⟩⟩

@[simp]
theorem entries_empty {ι : Type} : (∅ : Catalog α ι).entries = [] :=
  rfl

/-- The entry under a name. -/
def get? (catalog : Catalog α κ) (name : κ) : Option α :=
  (catalog.entries.find? fun entry => entry.1 == name).map Prod.snd

/-- Puts an entry under a name. -/
def put (catalog : Catalog α κ) (name : κ) (value : α) : Catalog α κ :=
  ⟨putEntry name value catalog.entries, nodup_putEntry catalog.nodup name value⟩

/-- The names in order of first use. -/
def names (catalog : Catalog α κ) : List κ :=
  catalog.entries.map Prod.fst

theorem nodup_names {ι : Type} (catalog : Catalog α ι) : catalog.names.Nodup :=
  catalog.nodup

/-- The entries under the names of a class. -/
def filter (p : κ → Bool) (catalog : Catalog α κ) : Catalog α κ :=
  ⟨catalog.entries.filter fun entry => p entry.1,
    catalog.nodup.sublist (List.filter_sublist.map Prod.fst)⟩

/-- The catalog of a list of entries, where a repeated name keeps its first place
and its last entry. -/
def ofList (entries : List (κ × α)) : Catalog α κ :=
  entries.foldl (fun catalog entry => catalog.put entry.1 entry.2) ∅

/-- A new name goes to the end, a known one stays where it is. -/
theorem names_put (catalog : Catalog α κ) (name : κ) (value : α) :
    (catalog.put name value).names =
      if name ∈ catalog.names then catalog.names else catalog.names ++ [name] :=
  map_fst_putEntry name value catalog.entries

/-- The entry just put is found under its name. -/
theorem get?_put_self (catalog : Catalog α κ) (name : κ) (value : α) :
    (catalog.put name value).get? name = some value := by
  show ((putEntry name value catalog.entries).find? _).map Prod.snd = some value
  induction catalog.entries with
  | nil => simp [putEntry]
  | cons entry rest ih =>
    unfold putEntry
    split
    · simp
    · next h => simpa [List.find?_cons, h] using ih

/-- Putting an entry leaves the entries under other names alone. -/
theorem get?_put_of_ne (catalog : Catalog α κ) {name other : κ} (value : α)
    (hne : other ≠ name) : (catalog.put name value).get? other = catalog.get? other := by
  show ((putEntry name value catalog.entries).find? _).map Prod.snd = _
  rw [get?]
  induction catalog.entries with
  | nil => simp [putEntry, hne.symm]
  | cons entry rest ih =>
    unfold putEntry
    split
    · next h => simp [h, hne.symm]
    · by_cases hentry : entry.1 = other
      · simp [hentry]
      · simpa [List.find?_cons, hentry] using ih

end Catalog

end QlikMigration
