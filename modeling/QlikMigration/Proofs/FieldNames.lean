import QlikMigration.Model.Expression
import QlikMigration.Proofs.ReadFailure
import QlikMigration.Proofs.Rewriting

/-!
# How a field without an alias gets its name

A text that is one word is its own name. A text with a call in it is named after
the argument of the first call, which is a text again. All other texts are named
after their characters, with underscores for spaces and without parentheses.

The argument of a call ends at the next closing parenthesis, so that of a nested
call is a fragment such as `Max(a`. It has no closing parenthesis, except perhaps
as its first character, and so there is no call in it. Naming therefore goes on
with an argument at most once, however deep calls are nested.

`exists_namingRun_fieldName` says so for every text, together with what the name
is free of.
-/

namespace QlikMigration

open QlikMigration.Text QlikMigration.Script

/-! ## Words and calls in a text -/

/-- A text is one word, perhaps with a line end behind it. -/
def OneWord (text : List Char) : Prop :=
  ∃ word tail, text = word ++ tail ∧ word ≠ [] ∧ (∀ c ∈ word, isWord c = true) ∧
    (tail = [] ∨ tail = ['\n'])

/-- A text begins with a call. The argument has at least one character, stands on one line and
ends at the first closing parenthesis behind that character. -/
structure CallAt (text argument : List Char) : Prop where
  written : ∃ function rest, text = function ++ '(' :: (argument ++ ')' :: rest) ∧
    function ≠ [] ∧ ∀ c ∈ function, isWord c = true
  ne_nil : argument ≠ []
  line : '\n' ∉ argument
  closing : ')' ∉ argument.tail

/-- The first call in a text: a call begins there, and none begins before it. -/
def FirstCall (text argument : List Char) : Prop :=
  ∃ front call, text = front ++ call ∧ CallAt call argument ∧
    ∀ part, part ≠ [] → part <:+ front → ∀ other, ¬ CallAt (part ++ call) other

theorem isOneWord_iff {text : List Char} : isOneWord text = true ↔ OneWord text := by
  rw [isOneWord, Bool.and_eq_true, atEnd_iff]
  constructor
  · rintro ⟨hstarts, hend⟩
    exact ⟨wordRun text, afterWordRun text, (wordRun_append_afterWordRun text).symm,
      wordRun_ne_nil hstarts, fun c hc => List.mem_takeWhile_imp hc, hend⟩
  · rintro ⟨word, tail, rfl, hne, hword, htail⟩
    have hstop : startsWord tail = false := by
      rcases htail with rfl | rfl
      · rfl
      · rfl
    rw [(wordRun_append (List.all_eq_true.mpr hword) hstop).2]
    exact ⟨startsWord_word_append hne hword tail, htail⟩

theorem callArgument?_eq_some_iff {text argument : List Char} :
    callArgument? text = some argument ↔ CallAt text argument := by
  constructor
  · intro h
    unfold callArgument? at h
    split at h
    · next hstarts =>
      split at h
      · next first rest hafter =>
        split at h
        · next hfirst =>
          obtain ⟨tail, htail, rfl⟩ := Option.map_eq_some_iff.mp h
          obtain ⟨later, rfl, hclosing, hline⟩ := Spark.upTo?_closing_eq_some_iff.mp htail
          -- The word reaches up to the parenthesis, since no word character is left there.
          refine ⟨⟨wordRun text, later, ?_, wordRun_ne_nil hstarts,
            fun c hc => List.mem_takeWhile_imp hc⟩, List.cons_ne_nil first tail, ?_, hclosing⟩
          · rw [List.cons_append, ← hafter, wordRun_append_afterWordRun]
          · have hne : first ≠ '\n' := by simpa [withinLine] using hfirst
            simp [hline, hne.symm]
        · cases h
      · cases h
    · cases h
  · rintro ⟨⟨function, rest, rfl, hne, hword⟩, hargument, hline, hclosing⟩
    obtain ⟨first, tail, rfl⟩ := List.exists_cons_of_ne_nil hargument
    rw [List.mem_cons, not_or] at hline
    have hfirst : withinLine first = true := bne_iff_ne.mpr (Ne.symm hline.1)
    have htail : upTo? withinLine ([')'].isPrefixOf) (tail ++ ')' :: rest) = some tail :=
      Spark.upTo?_closing_eq_some_iff.mpr ⟨rest, rfl, hclosing, hline.2⟩
    have hafter := (wordRun_append (List.all_eq_true.mpr hword)
      (rfl : startsWord ('(' :: (first :: tail ++ ')' :: rest)) = false)).2
    rw [callArgument?, if_pos (startsWord_word_append hne hword _), hafter]
    simp [hfirst, htail]

theorem firstArgument?_eq_some_iff {text argument : List Char} :
    firstArgument? text = some argument ↔ FirstCall text argument := by
  rw [firstArgument?, search?_eq_some_iff]
  simp only [FirstCall, ← callArgument?_eq_some_iff, Option.eq_none_iff_forall_ne_some]

theorem firstArgument?_eq_none_iff {text : List Char} :
    firstArgument? text = none ↔ ∀ part, part <:+ text → ∀ argument, ¬ CallAt part argument := by
  rw [firstArgument?, search?_eq_none_iff]
  simp only [← callArgument?_eq_some_iff, Option.eq_none_iff_forall_ne_some]

/-! ## One step -/

theorem unquoted_isInfix (text : List Char) : unquoted text <:+: text :=
  (trimOf_isInfix _ _).trans ((trimOf_isInfix _ _).trans (trim_isInfix text))

theorem CallAt.closing_mem_tail {text argument : List Char} (h : CallAt text argument) :
    ')' ∈ text.tail := by
  obtain ⟨function, rest, rfl, hne, -⟩ := h.written
  obtain ⟨c, letters, rfl⟩ := List.exists_cons_of_ne_nil hne
  simp

theorem CallAt.firstCall {text argument : List Char} (h : CallAt text argument) :
    FirstCall text argument :=
  ⟨[], text, rfl, h, fun _ hne hpart => absurd (List.suffix_nil.mp hpart) hne⟩

namespace FirstCall

variable {text argument : List Char}

theorem length_lt (h : FirstCall (unquoted text) argument) : argument.length < text.length :=
  calc
    argument.length < (unquoted text).length :=
      length_lt_of_firstArgument? (firstArgument?_eq_some_iff.mpr h)
    _ ≤ text.length := length_unquoted_le text

theorem exists_callAt (h : FirstCall text argument) :
    ∃ call, call <:+ text ∧ CallAt call argument := by
  obtain ⟨front, call, rfl, hcall, -⟩ := h
  exact ⟨call, List.suffix_append front call, hcall⟩

/-- There is no call in an argument: the closing parenthesis of one would end the argument. -/
theorem not_firstCall (h : FirstCall text argument) (other : List Char) :
    ¬ FirstCall (unquoted argument) other := by
  intro hinner
  obtain ⟨outer, -, houter⟩ := h.exists_callAt
  obtain ⟨inner, hsuffix, hinner⟩ := hinner.exists_callAt
  have hpart : inner <:+: argument := hsuffix.isInfix.trans (unquoted_isInfix argument)
  exact houter.closing (hpart.sublist.tail.subset hinner.closing_mem_tail)

theorem unique {other : List Char} (h : FirstCall text argument) (h' : FirstCall text other) :
    other = argument := by
  rw [← firstArgument?_eq_some_iff] at h h'
  exact Option.some.inj (h'.symm.trans h)

end FirstCall

theorem OneWord.not_mem {text : List Char} (h : OneWord text) {c : Char} (hc : isWord c = false)
    (hline : c ≠ '\n') : c ∉ text := by
  obtain ⟨word, tail, rfl, -, hword, htail⟩ := h
  have hnot : c ∉ word := fun hmem => ne_of_isWord (hword c hmem) hc rfl
  rcases htail with rfl | rfl
  · simp [hnot]
  · simp [hnot, hline]

/-- The characters of a name that is made of a text. -/
theorem mem_asName_iff {text : List Char} {c : Char} :
    c ∈ asName text ↔ c ∈ text ∧ c ∉ [' ', '(', ')'] ∨ ' ' ∈ text ∧ c = '_' := by
  simp only [asName, mem_replaceChar_iff, List.mem_cons, List.not_mem_nil, and_false, or_false]
  constructor
  · rintro ⟨⟨⟨hc, hspace⟩ | hunderscore, hopening⟩, hclosing⟩
    · exact Or.inl ⟨hc, not_or.mpr ⟨hspace, not_or.mpr ⟨hopening, hclosing⟩⟩⟩
    · exact Or.inr hunderscore
  · rintro (⟨hc, hnot⟩ | ⟨hspace, rfl⟩)
    · rw [not_or, not_or] at hnot
      exact ⟨⟨Or.inl ⟨hc, hnot.1⟩, hnot.2.1⟩, hnot.2.2⟩
    · exact ⟨⟨Or.inr ⟨hspace, rfl⟩, by decide⟩, by decide⟩

/-! ## Naming -/

/-- How a text gets its name, with the arguments that naming goes on with one after the other. -/
inductive Named : List Char → List (List Char) → List Char → Prop
  | word {text : List Char} (hword : OneWord (unquoted text)) : Named text [] (unquoted text)
  | call {text argument name : List Char} {arguments : List (List Char)}
      (hword : ¬ OneWord (unquoted text)) (hcall : FirstCall (unquoted text) argument)
      (hargument : Named argument arguments name) : Named text (argument :: arguments) name
  | plain {text : List Char} (hword : ¬ OneWord (unquoted text))
      (hcall : ∀ part, part <:+ unquoted text → ∀ argument, ¬ CallAt part argument) :
      Named text [] (asName (unquoted text))

theorem exists_named_fieldName (text : List Char) :
    ∃ arguments, Named text arguments (fieldName text) := by
  fun_induction fieldName text with
  | case1 text hword => exact ⟨[], .word (isOneWord_iff.mp hword)⟩
  | case2 text hword argument hcall _ ih =>
      rw [isOneWord_iff] at hword
      obtain ⟨arguments, harguments⟩ := ih
      exact ⟨argument :: arguments, .call hword (firstArgument?_eq_some_iff.mp hcall) harguments⟩
  | case3 text hword hcall =>
      rw [isOneWord_iff] at hword
      exact ⟨[], .plain hword (firstArgument?_eq_none_iff.mp hcall)⟩

namespace Named

variable {text name : List Char} {arguments : List (List Char)}

theorem unique (h : Named text arguments name) {other : List Char} {others : List (List Char)}
    (h' : Named text others other) : others = arguments ∧ other = name := by
  induction h generalizing others other with
  | word hword =>
      cases h' with
      | word => exact ⟨rfl, rfl⟩
      | call hnot => exact absurd hword hnot
      | plain hnot => exact absurd hword hnot
  | call hword hcall _ ih =>
      cases h' with
      | word hone => exact absurd hone hword
      | call _ hcall' hargument =>
          obtain rfl := hcall.unique hcall'
          obtain ⟨rfl, rfl⟩ := ih hargument
          exact ⟨rfl, rfl⟩
      | plain _ hnone =>
          obtain ⟨inner, hsuffix, hinner⟩ := hcall.exists_callAt
          exact absurd hinner (hnone inner hsuffix _)
  | plain hword hnone =>
      cases h' with
      | word hone => exact absurd hone hword
      | call _ hcall =>
          obtain ⟨inner, hsuffix, hinner⟩ := hcall.exists_callAt
          exact absurd hinner (hnone inner hsuffix _)
      | plain => exact ⟨rfl, rfl⟩

theorem fieldName_eq (h : Named text arguments name) : fieldName text = name := by
  obtain ⟨others, hother⟩ := exists_named_fieldName text
  exact (h.unique hother).2

theorem isChain_length (h : Named text arguments name) :
    (text :: arguments).IsChain fun expression argument => argument.length < expression.length := by
  induction h with
  | word => exact List.isChain_singleton _
  | call _ hcall _ ih => exact List.isChain_cons_cons.mpr ⟨hcall.length_lt, ih⟩
  | plain => exact List.isChain_singleton _

theorem length_le_one (h : Named text arguments name) : arguments.length ≤ 1 := by
  cases h with
  | word => exact Nat.zero_le 1
  | call _ hcall hargument =>
      -- The argument may be no word, but it has no call in it to go on with.
      cases hargument with
      | word => exact Nat.le_refl 1
      | call _ hinner => exact absurd hinner (hcall.not_firstCall _)
      | plain => exact Nat.le_refl 1
  | plain => exact Nat.zero_le 1

theorem not_mem (h : Named text arguments name) {c : Char} (hc : c ∈ [' ', '(', ')']) :
    c ∉ name := by
  induction h with
  | word hword =>
      have hother : isWord c = false ∧ c ≠ '\n' := by
        simp only [List.mem_cons, List.not_mem_nil, or_false] at hc
        rcases hc with rfl | rfl | rfl <;> decide
      exact hword.not_mem hother.1 hother.2
  | call _ _ _ ih => exact ih
  | plain =>
      rw [mem_asName_iff]
      rintro (⟨-, hnot⟩ | ⟨-, rfl⟩)
      · exact hnot hc
      · exact absurd hc (by decide)

end Named

/-- A text gets a clean name, and in one way only, through arguments that become shorter. -/
structure NamingRun (text : List Char) (arguments : List (List Char)) (name : List Char) :
    Prop where
  named : Named text arguments name
  only : ∀ others other, Named text others other → others = arguments ∧ other = name
  shorter : (text :: arguments).IsChain
    fun expression argument => argument.length < expression.length
  once : arguments.length ≤ 1
  space : ' ' ∉ name
  opening : '(' ∉ name
  closing : ')' ∉ name

/-- Naming comes to an end for every text, and in one way only. Each argument that it goes on with
is shorter than the text before, and there is one at most. The name has no space and no
parenthesis. -/
theorem exists_namingRun_fieldName (text : List Char) :
    ∃ arguments, NamingRun text arguments (fieldName text) := by
  obtain ⟨arguments, hnamed⟩ := exists_named_fieldName text
  exact ⟨arguments, hnamed, fun _ _ => hnamed.unique, hnamed.isChain_length, hnamed.length_le_one,
    hnamed.not_mem (by decide), hnamed.not_mem (by decide), hnamed.not_mem (by decide)⟩

-- The argument ends inside the nested call, and what is left of that call has no parenthesis.
example : fieldName "Sum(Max(a), b)".toList = "Maxa".toList := by decide +kernel

end QlikMigration
