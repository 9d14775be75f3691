import Mathlib.Data.Bool.AllAny
import Mathlib.Data.List.Forall2
import QlikMigration.Json.Access

/-!
# Shapes of documents

Reaching into a document succeeds or fails by the shape of its values alone.
This module says for each way of reaching which shape it needs, as an equation
between two truth values: whether the access succeeds, and whether the value has
the shape. Accesses that follow each other then need the shapes together, so
that whatever a function asks of a document can be read off its definition.

A value that is gone through need not be an array. The elements of a text and of
an object are texts, so where something is asked of each element that no text
offers, a text and an object pass only if they are empty.
-/

namespace QlikMigration.Json

/-! ## Accesses that follow each other -/

section Sequences

variable {ε α β : Type}

theorem isOk_bind {first : Except ε α} {next : α → Except ε β} {shaped : Bool}
    (h : ∀ a, (next a).isOk = shaped) : (first >>= next).isOk = (first.isOk && shaped) := by
  cases first with
  | error cause => rfl
  | ok a => exact h a

theorem isOk_bind_pure (first : Except ε α) (f : α → β) :
    (first >>= fun a => pure (f a)).isOk = first.isOk := by
  cases first <;> rfl

theorem isOk_mapM (f : α → Except ε β) (items : List α) :
    (items.mapM f).isOk = items.all fun item => (f item).isOk := by
  induction items with
  | nil => rfl
  | cons item items ih =>
      have hitems : ∀ b, (items.mapM f >>= fun rest => pure (b :: rest)).isOk =
          items.all fun item => (f item).isOk := by
        intro b
        rw [isOk_bind_pure, ih]
      rw [List.mapM_cons, isOk_bind hitems, List.all_cons]

theorem forall₂_of_mapM_eq_ok {f : α → Except ε β} {items : List α} {results : List β}
    (h : items.mapM f = .ok results) :
    List.Forall₂ (fun item b => f item = .ok b) items results := by
  induction items generalizing results with
  | nil =>
      obtain rfl := Except.ok.inj h
      exact .nil
  | cons item items ih =>
      rw [List.mapM_cons] at h
      cases hitem : f item with
      | error cause =>
          rw [hitem] at h
          cases h
      | ok b =>
          cases hitems : items.mapM f with
          | error cause =>
              rw [hitem, hitems] at h
              cases h
          | ok rest =>
              rw [hitem, hitems] at h
              obtain rfl := Except.ok.inj h
              exact .cons hitem (ih hitems)

theorem mapM_eq_ok_iff {f : α → Except ε β} {items : List α} {results : List β} :
    items.mapM f = .ok results ↔ List.Forall₂ (fun item b => f item = .ok b) items results := by
  refine ⟨forall₂_of_mapM_eq_ok, fun h => ?_⟩
  induction h with
  | nil => rfl
  | cons hitem _ ih =>
      rw [List.mapM_cons, hitem, ih]
      rfl

theorem eq_ok_of_toOption_eq_some {result : Except ε α} {a : α} (h : result.toOption = some a) :
    result = .ok a := by
  cases result with
  | error cause => cases h
  | ok b => exact congrArg Except.ok (Option.some.inj h)

end Sequences

namespace Value

/-! ## Shapes -/

/-- Whether members can be asked of a value. -/
def isObject : Value → Bool
  | object _ => true
  | _ => false

/-- Whether a value has a size and can be gone through. -/
def isSized : Value → Bool
  | text _ | array _ | object _ => true
  | _ => false

/-- Whether a value can be indexed and cut wherever its size allows it. -/
def isIndexed : Value → Bool
  | text _ | array _ => true
  | object members => members.isEmpty
  | _ => false

/-- Whether a value has an element at its start. -/
def hasFirst : Value → Bool
  | text s => s != ""
  | array items => !items.isEmpty
  | _ => false

/-- Whether a value can be taken for a floating-point number. -/
def isNumber : Value → Bool
  | bool _ | real _ => true
  | int n => !(Float.ofInt n).isInf
  | _ => false

/-- Whether a value is a list of what no text is: an array of such values, or something
empty. -/
def lists (p : Value → Bool) : Value → Bool
  | array items => items.all p
  | text s => s == ""
  | object members => members.isEmpty
  | _ => false

/-- The member of an object under a name, or a default. -/
def partD (value : Value) (name : String) (default : Value) : Value :=
  (value.member? name).getD default

/-- A part of a value; one that is missing counts as an empty list. -/
def partIn (value : Value) (name : String) : Value :=
  value.partD name (.array [])

/-! ## What each access needs -/

theorem isEmpty_toList (s : String) : s.toList.isEmpty = (s == "") := by
  rw [Bool.eq_iff_iff, List.isEmpty_iff, beq_iff_eq]
  exact String.toList_eq_nil_iff

variable {α : Type} {value : Value} {shaped : Bool}

theorem getD_of_isObject (h : value.isObject = true) (name : String) (default : Value) :
    value.getD name default = .ok (value.partD name default) := by
  cases value with
  | object members => rfl
  | null | bool _ | int _ | real _ | text _ | array _ => cases h

/-- Where the default has a shape, a member need only have it if it is there. -/
theorem partD_eq_all {p : Value → Bool} {default : Value} (h : p default = true) (name : String) :
    p (value.partD name default) = (value.member? name).all p := by
  rw [partD]
  cases value.member? name with
  | none => exact h
  | some part => rfl

/-- A member is asked of an object. -/
theorem isOk_getD_bind (name : String) (default : Value) (next : Value → Except AccessError α) :
    (value.getD name default >>= next).isOk =
      (value.isObject && (next (value.partD name default)).isOk) := by
  cases value <;> rfl

theorem isOk_size : value.size.isOk = value.isSized := by
  cases value <;> rfl

theorem isOk_elements : value.elements.isOk = value.isSized := by
  cases value <;> rfl

theorem isOk_toReal : value.toReal.isOk = value.isNumber := by
  cases value with
  | int n =>
      show (if (Float.ofInt n).isInf = true then _ else _ : Except AccessError Float).isOk = _
      rw [isNumber]
      cases (Float.ofInt n).isInf <;> rfl
  | null | bool _ | real _ | text _ | array _ | object _ => rfl

/-- Going through a value for what no text offers needs a list of it. -/
theorem isOk_elements_bind {p : Value → Bool} {next : List Value → Except AccessError α}
    (htext : ∀ s, p (.text s) = false)
    (hnext : ∀ elements, (next elements).isOk = (elements.all p && shaped)) :
    (value.elements >>= next).isOk = (value.lists p && shaped) := by
  cases value with
  | array items => exact hnext items
  | text s =>
      show (next _).isOk = _
      rw [hnext, lists, ← isEmpty_toList]
      cases s.toList with
      | nil => rfl
      | cons c cs =>
          rw [List.map_cons, List.all_cons, htext]
          rfl
  | object members =>
      show (next _).isOk = _
      rw [hnext, lists]
      cases members with
      | nil => rfl
      | cons member members =>
          rw [List.map_cons, List.all_cons, htext]
          rfl
  | null | bool _ | int _ | real _ => rfl

/-- The elements of a text or an array are found by their index. -/
theorem isOk_at? {elements : List Value} (hindexed : value.isIndexed = true)
    (helements : value.elements = .ok elements) {index : Nat} (hindex : index < elements.length) :
    (value.at? index).isOk = true := by
  have hget : elements[index]? = some elements[index] := List.getElem?_eq_getElem hindex
  cases value with
  | object members =>
      obtain rfl := List.isEmpty_iff.mp hindexed
      obtain rfl := Except.ok.inj helements
      exact absurd hindex (Nat.not_lt_zero index)
  | null | bool _ | int _ | real _ => cases hindexed
  | text _ | array _ =>
      unfold at?
      simp only [helements, bind, Except.bind, hget]
      rfl

/-- The first element is asked of what has one. -/
theorem isOk_at?_zero : (value.at? 0).isOk = value.hasFirst := by
  cases value with
  | array items => cases items <;> rfl
  | text s =>
      unfold at?
      simp only [elements, bind, Except.bind, hasFirst, bne, ← isEmpty_toList]
      cases s.toList <;> rfl
  | null | bool _ | int _ | real _ | object _ => rfl

/-- Setting a member leaves the members under other names alone. -/
theorem member?_setMember_of_ne {name other : String} (hne : other ≠ name) (set : Value)
    (members : List (String × Value)) :
    (object (setMember name set members)).member? other = (object members).member? other := by
  have hname : (name == other) = false := beq_eq_false_iff_ne.mpr hne.symm
  induction members with
  | nil => simp [setMember, member?, hname]
  | cons member members ih =>
      unfold setMember
      split
      · next heq =>
          obtain rfl : member.1 = name := by simpa using heq
          simp [member?, hname]
      · cases hmember : member.1 == other with
        | true => simp [member?, hmember]
        | false => simpa [member?, List.find?_cons, hmember] using ih

/-- A member that is set is found. -/
theorem member?_setMember_self (name : String) (set : Value) (members : List (String × Value)) :
    (object (setMember name set members)).member? name = some set := by
  induction members with
  | nil => simp [setMember, member?]
  | cons member members ih =>
      unfold setMember
      split
      · simp [member?]
      · next hne =>
          have hmember : (member.1 == name) = false := Bool.not_eq_true _ ▸ hne
          simpa [member?, List.find?_cons, hmember] using ih

end Value

end QlikMigration.Json
