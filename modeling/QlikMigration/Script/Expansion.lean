import QlikMigration.Script.Reader
import QlikMigration.Text.Digit

/-!
# Expanding variables

A reference `$(name)` stands for the value of a variable. The variables are
expanded one after the other in the order of their first assignment, each in
two passes over the text. The first pass puts the value in as it is. The second
replaces the references that are still there, or that the first pass brought
in, and it reads the value as a template: a backslash starts an escape, which
may also stand for the reference itself. A value without a backslash is a
template of nothing but its own characters. A template that is not well formed
is refused even if no reference is left.
-/

namespace QlikMigration.Script

open QlikMigration.Text

/-- Why a value cannot serve as a template. -/
inductive TemplateError
  /-- A backslash at the end, an unknown escape letter, or a group that a reference
  does not have. -/
  | badEscape
  /-- A group is called by a name, and references have no named groups. -/
  | unknownGroup
  deriving DecidableEq, Repr

/-- One piece of a template. -/
inductive TemplatePiece
  | char (c : Char)
  | reference
  deriving DecidableEq, Repr

/-- The character that a one-letter escape stands for. -/
def escapeLetter? : Char → Option Char
  | 'a' => some (Char.ofNat 7)
  | 'b' => some (Char.ofNat 8)
  | 'f' => some (Char.ofNat 12)
  | 'n' => some '\n'
  | 'r' => some '\r'
  | 't' => some '\t'
  | 'v' => some (Char.ofNat 11)
  | '\\' => some '\\'
  | _ => none

/-- Whether a character is an octal digit. -/
def isOctal (c : Char) : Bool :=
  '0' ≤ c && c ≤ '7'

/-- The number that octal digits give. -/
def octalValue (digits : List Char) : Nat :=
  digits.foldl (fun n d => n * 8 + (d.toNat - '0'.toNat)) 0

/-- Whether decimal digits, possibly with single underscores between them, give
zero. -/
def isZeroDigits : List Char → Bool
  | [] => false
  | [c] => decimalValue? c == some 0
  | c :: '_' :: rest => decimalValue? c == some 0 && isZeroDigits rest
  | c :: rest => decimalValue? c == some 0 && isZeroDigits rest

/-- Whether the name of a group is a way to write the number zero. -/
def isZeroGroup (name : List Char) : Bool :=
  match trim name with
  | '-' :: digits => isZeroDigits digits
  | '+' :: digits => isZeroDigits digits
  | digits => isZeroDigits digits

/-- Whether the name of a group is a word that does not start with a digit. -/
def isGroupWord : List Char → Bool
  | [] => false
  | c :: rest => isWord c && !isDigit c && (c :: rest).all isWord

/-- The name of a group up to the closing bracket, and what follows. An escaped
bracket does not close it. -/
def groupName? : List Char → Option (List Char × List Char)
  | [] => none
  | ['\\'] => none
  | '>' :: rest => some ([], rest)
  | '\\' :: c :: rest => (groupName? rest).map fun (name, tail) => ('\\' :: c :: name, tail)
  | c :: rest => (groupName? rest).map fun (name, tail) => (c :: name, tail)

theorem length_lt_of_groupName? {cs name rest : List Char}
    (h : groupName? cs = some (name, rest)) : rest.length < cs.length := by
  fun_induction groupName? cs generalizing name rest with
  | case1 => simp at h
  | case2 => simp at h
  | case3 tail =>
    simp only [Option.some.injEq, Prod.mk.injEq] at h
    simp [h.2]
  | case4 c tail ih =>
    obtain ⟨⟨inner, after⟩, hinner, heq⟩ := Option.map_eq_some_iff.1 h
    simp only [Prod.mk.injEq] at heq
    have := ih hinner
    simp only [List.length_cons]
    rw [← heq.2]
    omega
  | case5 c tail _ _ _ ih =>
    obtain ⟨⟨inner, after⟩, hinner, heq⟩ := Option.map_eq_some_iff.1 h
    simp only [Prod.mk.injEq] at heq
    have := ih hinner
    simp only [List.length_cons]
    rw [← heq.2]
    omega

/-- Reads what follows a backslash: the pieces it stands for, and what comes after them. A
backslash that ends the template is noticed before a group is looked up. -/
def readEscape : List Char → Except TemplateError (List TemplatePiece × List Char)
  | [] => .error .badEscape
  | 'g' :: '<' :: rest =>
    match groupName? rest with
    | none => .error .badEscape
    | some (name, tail) =>
      if isZeroGroup name then .ok ([.reference], tail)
      else if isGroupWord name && tail != ['\\'] then .error .unknownGroup
      else .error .badEscape
  | '0' :: rest =>
    let digits := (rest.take 2).takeWhile isOctal
    .ok ([.char (Char.ofNat (octalValue digits))], rest.drop digits.length)
  | letter :: rest =>
    if letter.isDigit then
      let digits := letter :: rest.take 2
      if digits.length == 3 && digits.all isOctal && octalValue digits ≤ 255 then
        .ok ([.char (Char.ofNat (octalValue digits))], rest.drop 2)
      else .error .badEscape
    else match escapeLetter? letter with
      | some char => .ok ([.char char], rest)
      | none =>
        if letter.isAlpha then .error .badEscape else .ok ([.char '\\', .char letter], rest)

/-- An escape takes at least one character. -/
theorem length_lt_of_readEscape {cs rest : List Char} {pieces : List TemplatePiece}
    (h : readEscape cs = .ok (pieces, rest)) : rest.length < cs.length := by
  unfold readEscape at h
  split at h
  · cases h
  · next tail =>
    cases hname : groupName? tail with
    | none => simp only [hname] at h; cases h
    | some found =>
      obtain ⟨name, after⟩ := found
      have hlt := length_lt_of_groupName? hname
      simp only [hname] at h
      split at h
      · cases h
        simp only [List.length_cons]
        omega
      · split at h <;> cases h
  · cases h
    simp only [List.length_drop, List.length_cons]
    omega
  · split at h
    · simp only at h
      split at h
      · cases h
        simp only [List.length_drop, List.length_cons]
        omega
      · cases h
    · split at h
      · cases h
        simp only [List.length_cons]
        omega
      · split at h
        · cases h
        · cases h
          simp only [List.length_cons]
          omega

/-- Reads a template. -/
def readTemplate (cs : List Char) : Except TemplateError (List TemplatePiece) :=
  match cs with
  | [] => .ok []
  | '\\' :: rest =>
    match h : readEscape rest with
    | .error cause => .error cause
    | .ok (pieces, after) =>
      have : after.length < rest.length := length_lt_of_readEscape h
      (readTemplate after).map (pieces ++ ·)
  | c :: rest => (readTemplate rest).map (.char c :: ·)
termination_by cs.length
decreasing_by
  all_goals simp only [List.length_cons]; omega

/-- The text of a template for a reference. -/
def fillTemplate (reference : List Char) (template : List TemplatePiece) : List Char :=
  template.flatMap fun
    | .char c => [c]
    | .reference => reference

/-- A reference to a variable. -/
def referenceTo (name : String) : List Char :=
  '$' :: '(' :: name.toList ++ [')']

/-- Expands one variable. -/
def expandVariable (name value : String) (cs : List Char) : Except TemplateError (List Char) :=
  let reference := referenceTo name
  let once := replace reference value.toList cs
  if value.toList.contains '\\' then
    (readTemplate value.toList).map fun template =>
      replace reference (fillTemplate reference template) once
  else
    .ok (replace reference value.toList once)

/-- Expands all variables, in the order of their first assignment. -/
def expandVariables (bindings : Variables) (text : String) : Except TemplateError String :=
  (bindings.entries.foldlM (fun cs entry => expandVariable entry.1 entry.2 cs) text.toList).map
    String.ofList

end QlikMigration.Script
