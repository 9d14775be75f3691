/-!
# Parts and replacements

The plain test for a part of a text, what stands before it, and replacing every
occurrence of a pattern from the left. All of them work on lists of characters;
the pattern of a replacement is never empty here.
-/

namespace QlikMigration.Text

/-- Whether a text has another as a part. -/
def contains (part : List Char) : List Char → Bool
  | [] => part.isEmpty
  | c :: rest => part.isPrefixOf (c :: rest) || contains part rest

/-- The text before the first occurrence of a part; the whole text if there is none. -/
def before (part : List Char) : List Char → List Char
  | [] => []
  | c :: rest => if part.isPrefixOf (c :: rest) then [] else c :: before part rest

/-- A text in which the occurrences of a pattern, found from the left and without
overlap, are replaced. The first `skip` characters belong to an occurrence that
is already replaced. -/
def replaceFrom (pattern replacement : List Char) : Nat → List Char → List Char
  | _, [] => []
  | skip + 1, _ :: rest => replaceFrom pattern replacement skip rest
  | 0, c :: rest =>
    if pattern.isPrefixOf (c :: rest) then
      replacement ++ replaceFrom pattern replacement (pattern.length - 1) rest
    else
      c :: replaceFrom pattern replacement 0 rest

/-- A text in which every occurrence of a pattern, found from the left and without
overlap, is replaced. -/
def replace (pattern replacement cs : List Char) : List Char :=
  replaceFrom pattern replacement 0 cs

/-- A text in which every occurrence of one character is replaced by a text. -/
def replaceChar (c : Char) (replacement cs : List Char) : List Char :=
  cs.flatMap fun x => if x = c then replacement else [x]

theorem isPrefixOf_singleton (c : Char) (cs : List Char) :
    [c].isPrefixOf cs = (cs.head? == some c) := by
  cases cs with
  | nil => rfl
  | cons d cs =>
      rw [List.isPrefixOf_cons_cons, List.isPrefixOf_nil_left, Bool.and_true, List.head?_cons,
        Option.some_beq_some, BEq.comm]

theorem mem_replaceChar_iff {c d : Char} {replacement cs : List Char} :
    d ∈ replaceChar c replacement cs ↔ d ∈ cs ∧ d ≠ c ∨ c ∈ cs ∧ d ∈ replacement := by
  rw [replaceChar, List.mem_flatMap]
  constructor
  · rintro ⟨x, hx, hd⟩
    split at hd
    · next heq => exact Or.inr ⟨heq ▸ hx, hd⟩
    · next hne =>
      cases List.mem_singleton.mp hd
      exact Or.inl ⟨hx, hne⟩
  · rintro (⟨hd, hne⟩ | ⟨hc, hd⟩)
    · exact ⟨d, hd, by simp [hne]⟩
    · exact ⟨c, hc, by simpa using hd⟩

end QlikMigration.Text
