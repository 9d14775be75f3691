import Mathlib.Data.List.Induction
import Mathlib.Data.List.Nodup
import QlikMigration.Catalog

/-!
# Names and entries of a catalog

A catalog has each of its names once, so an entry is found under its name exactly
if it is there. Which entry is found after one is put is said beside the
definition of a catalog; here it is said of the catalog of a whole list, which
has the names of the list in the order of first use and under each name the last
entry.
-/

namespace QlikMigration.Catalog

universe u

variable {κ : Type} [DecidableEq κ] {α : Type u}

/-- A name has an entry exactly if it is one of the names. -/
theorem isSome_get?_iff {catalog : Catalog α κ} {name : κ} :
    (catalog.get? name).isSome ↔ name ∈ catalog.names := by
  simp [get?, names, List.find?_isSome]

/-- A name with an entry is one of the names. -/
theorem mem_names_of_get? {catalog : Catalog α κ} {name : κ} {value : α}
    (hfound : catalog.get? name = some value) : name ∈ catalog.names :=
  isSome_get?_iff.mp (by rw [hfound]; rfl)

/-- Each of the names has an entry. -/
theorem exists_get?_of_mem_names {catalog : Catalog α κ} {name : κ}
    (hname : name ∈ catalog.names) : ∃ value, catalog.get? name = some value :=
  Option.isSome_iff_exists.mp (isSome_get?_iff.mpr hname)

/-- An entry is found under its name exactly if it is there. -/
theorem get?_eq_some_iff {catalog : Catalog α κ} {name : κ} {value : α} :
    catalog.get? name = some value ↔ (name, value) ∈ catalog.entries := by
  constructor
  · intro hfound
    obtain ⟨⟨found, _⟩, hfind, rfl⟩ := Option.map_eq_some_iff.mp hfound
    obtain rfl : found = name := by simpa using List.find?_some hfind
    exact List.mem_of_find?_eq_some hfind
  · intro hmem
    obtain ⟨found, hfound⟩ := exists_get?_of_mem_names (List.mem_map_of_mem (f := Prod.fst) hmem)
    obtain ⟨⟨other, _⟩, hfind, rfl⟩ := Option.map_eq_some_iff.mp hfound
    obtain rfl : other = name := by simpa using List.find?_some hfind
    have hsame := List.inj_on_of_nodup_map catalog.nodup (List.mem_of_find?_eq_some hfind) hmem rfl
    exact hfound.trans (congrArg (fun entry => some entry.2) hsame)

/-- The names after putting an entry are the names before and the name of the entry. -/
theorem mem_names_put {catalog : Catalog α κ} {name other : κ} {value : α} :
    other ∈ (catalog.put name value).names ↔ other ∈ catalog.names ∨ other = name := by
  rw [names_put]
  split
  · next hknown =>
    constructor
    · exact Or.inl
    · rintro (hold | rfl)
      · exact hold
      · exact hknown
  · simp

/-- An entry that is put stands under its name, and the others stay. -/
theorem get?_put (catalog : Catalog α κ) (name : κ) (value : α) (other : κ) :
    (catalog.put name value).get? other =
      if other = name then some value else catalog.get? other := by
  split
  · next heq => rw [heq, get?_put_self]
  · next hne => exact get?_put_of_ne _ _ hne

theorem mem_put {catalog : Catalog α κ} {name : κ} {value : α} {entry : κ × α} :
    entry ∈ (catalog.put name value).entries ↔
      entry = (name, value) ∨ entry ∈ catalog.entries ∧ entry.1 ≠ name := by
  obtain ⟨other, found⟩ := entry
  rw [← get?_eq_some_iff, ← get?_eq_some_iff, get?_put]
  split
  · next heq => simp [heq, eq_comm]
  · next hne => simp [hne]

theorem filter_eq_self {ι : Type} {p : ι → Bool} {catalog : Catalog α ι}
    (h : ∀ entry ∈ catalog.entries, p entry.1 = true) : catalog.filter p = catalog := by
  obtain ⟨entries, hnodup⟩ := catalog
  rw [filter, mk.injEq]
  exact List.filter_eq_self.mpr h

/-- An entry found after putting one is the new entry or was found before. -/
theorem get?_put_eq_some {catalog : Catalog α κ} {name other : κ} {value found : α}
    (hfound : (catalog.put name value).get? other = some found) :
    (other = name ∧ found = value) ∨ catalog.get? other = some found := by
  by_cases hother : other = name
  · subst hother
    rw [get?_put_self] at hfound
    exact Or.inl ⟨rfl, (Option.some.inj hfound).symm⟩
  · rw [get?_put_of_ne _ _ hother] at hfound
    exact Or.inr hfound

/-- A new name is put at the end. -/
theorem entries_put_of_not_mem {catalog : Catalog α κ} {name : κ} (h : name ∉ catalog.names)
    (value : α) : (catalog.put name value).entries = catalog.entries ++ [(name, value)] := by
  show putEntry name value catalog.entries = _
  rw [names] at h
  generalize catalog.entries = entries at h ⊢
  induction entries with
  | nil => rfl
  | cons entry entries ih =>
      rw [List.map_cons, List.mem_cons, not_or] at h
      rw [putEntry, if_neg (Ne.symm h.1), ih h.2, List.cons_append]

theorem ofList_append_singleton (entries : List (κ × α)) (last : κ × α) :
    ofList (entries ++ [last]) = (ofList entries).put last.1 last.2 := by
  rw [ofList, List.foldl_append]
  rfl

/-- The names of the catalog of a list are those of the list, in the order of first use. -/
theorem names_ofList (entries : List (κ × α)) :
    (ofList entries).names = (entries.map Prod.fst).eraseDups := by
  induction entries using List.reverseRecOn with
  | nil => rfl
  | append_singleton entries last ih =>
      rw [ofList_append_singleton, names_put, ih, List.map_append, List.eraseDups_append]
      by_cases hmem : last.1 ∈ entries.map Prod.fst
      · rw [if_pos (List.mem_eraseDups.mpr hmem)]
        simp [List.cons_removeAll, hmem]
      · rw [if_neg fun h => hmem (List.mem_eraseDups.mp h)]
        simp [List.cons_removeAll, List.eraseDups_cons, hmem]

/-- Under a name the catalog of a list has the last entry of that name. -/
theorem get?_ofList (entries : List (κ × α)) (name : κ) :
    (ofList entries).get? name =
      (entries.filter fun entry => entry.1 == name).getLast?.map Prod.snd := by
  induction entries using List.reverseRecOn with
  | nil => rfl
  | append_singleton entries last ih =>
      rw [ofList_append_singleton, List.filter_append, List.getLast?_append]
      by_cases hname : last.1 = name
      · subst hname
        simp [get?_put_self]
      · rw [get?_put_of_ne _ _ (Ne.symm hname), ih]
        simp [hname]

/-- An entry is found in the catalog of a list if no entry of its name comes after it. -/
theorem get?_ofList_eq_some_iff {entries : List (κ × α)} {name : κ} {value : α} :
    (ofList entries).get? name = some value ↔
      ∃ front back, entries = front ++ (name, value) :: back ∧ ∀ later ∈ back, later.1 ≠ name := by
  rw [get?_ofList, List.getLast?_filter, Option.map_eq_some_iff]
  constructor
  · rintro ⟨⟨found, _⟩, hfind, rfl⟩
    obtain ⟨hname, back, front, hcut, hback⟩ := List.find?_eq_some_iff_append.mp hfind
    obtain rfl : found = name := by simpa using hname
    refine ⟨front.reverse, back.reverse, by simpa using congrArg List.reverse hcut, ?_⟩
    intro later hlater
    simpa using hback later (List.mem_reverse.mp hlater)
  · rintro ⟨front, back, rfl, hback⟩
    refine ⟨(name, value), ?_, rfl⟩
    rw [List.find?_eq_some_iff_append]
    refine ⟨beq_self_eq_true name, back.reverse, front.reverse, by simp, ?_⟩
    intro later hlater
    simpa using hback later (List.mem_reverse.mp hlater)

/-- The entries of the catalog of a list are the last ones of their names. -/
theorem mem_ofList_iff {entries : List (κ × α)} {name : κ} {value : α} :
    (name, value) ∈ (ofList entries).entries ↔
      ∃ front back, entries = front ++ (name, value) :: back ∧ ∀ later ∈ back, later.1 ≠ name := by
  rw [← get?_eq_some_iff, get?_ofList_eq_some_iff]

/-- Every entry of the catalog of a list is one of the list. -/
theorem mem_of_mem_ofList {entries : List (κ × α)} {entry : κ × α}
    (h : entry ∈ (ofList entries).entries) : entry ∈ entries := by
  obtain ⟨front, back, rfl, -⟩ := mem_ofList_iff.mp h
  simp

/-- A list without a repeated name is its catalog. -/
theorem entries_ofList {entries : List (κ × α)} (h : (entries.map Prod.fst).Nodup) :
    (ofList entries).entries = entries := by
  induction entries using List.reverseRecOn with
  | nil => rfl
  | append_singleton entries last ih =>
      rw [List.map_append, List.nodup_append] at h
      have hlast : last.1 ∉ (ofList entries).names := by
        rw [names, ih h.1]
        exact fun hmem => h.2.2 last.1 hmem last.1 (by simp) rfl
      rw [ofList_append_singleton, entries_put_of_not_mem hlast, ih h.1]

end QlikMigration.Catalog
