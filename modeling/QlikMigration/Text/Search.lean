/-!
# Searching a text

The clauses of a statement are found by trying a recogniser at each position
from the left. A recogniser sees the character before the position, because a
keyword may have to stand at the start of a word, and the text from the
position on. The two searches here differ in what they return: `findFirst?`
gives the text before the first hit together with the recogniser's result,
`upTo?` gives the text up to the first place where a stop test holds, provided
that every character on the way may be crossed.
-/

namespace QlikMigration.Text

universe u

variable {α : Type u}

/-- The first hit of a recogniser in a text that follows `prev`. -/
def findFirstAfter? (recognise : Option Char → List Char → Option α) :
    Option Char → List Char → Option (List Char × α)
  | prev, [] => (recognise prev []).map fun hit => ([], hit)
  | prev, c :: rest =>
    match recognise prev (c :: rest) with
    | some hit => some ([], hit)
    | none =>
      match findFirstAfter? recognise (some c) rest with
      | some (before, hit) => some (c :: before, hit)
      | none => none

/-- The first hit of a recogniser in a text, with the text before it. -/
def findFirst? (recognise : Option Char → List Char → Option α) (cs : List Char) :
    Option (List Char × α) :=
  findFirstAfter? recognise none cs

/-- The result of the first hit of a recogniser that ignores what stands before it. -/
def search? (recognise : List Char → Option α) (cs : List Char) : Option α :=
  (findFirst? (fun _ rest => recognise rest) cs).map Prod.snd

/-- The text up to the first place where `stop` holds, crossing only characters that
satisfy `crosses`. -/
def upTo? (crosses : Char → Bool) (stop : List Char → Bool) : List Char → Option (List Char)
  | [] => if stop [] then some [] else none
  | c :: rest =>
    if stop (c :: rest) then some []
    else if crosses c then (upTo? crosses stop rest).map (c :: ·)
    else none

/-- Every character may be crossed. -/
def anyChar (_ : Char) : Bool :=
  true

/-- Every character but the end of a line may be crossed. -/
def withinLine (c : Char) : Bool :=
  c != '\n'

/-- Whether a text stands at its end, where one closing line end does not count. -/
def atEnd : List Char → Bool
  | [] => true
  | ['\n'] => true
  | _ => false

theorem upTo?_isPrefix {crosses : Char → Bool} {stop : List Char → Bool} {cs found : List Char}
    (h : upTo? crosses stop cs = some found) : found <+: cs := by
  induction cs generalizing found with
  | nil =>
    unfold upTo? at h
    split at h <;> simp_all
  | cons c rest ih =>
    unfold upTo? at h
    split at h
    · simp_all
    · split at h
      · obtain ⟨tail, htail, rfl⟩ := Option.map_eq_some_iff.1 h
        exact List.cons_prefix_cons.2 ⟨rfl, ih htail⟩
      · simp at h

theorem atEnd_iff {cs : List Char} : atEnd cs = true ↔ cs = [] ∨ cs = ['\n'] := by
  unfold atEnd
  split
  · simp
  · simp
  · next hnil hline => exact iff_of_false Bool.false_ne_true (not_or.mpr ⟨hnil, hline⟩)

end QlikMigration.Text
