import QlikMigration.Proofs.FixedTexts
import QlikMigration.Proofs.JoinKeys

/-!
# The shapes of converted calls

What a known function becomes depends on its name and on how many arguments it
has. Each rule writes the arguments in their order: a text stands before each of
them, another behind the last, and a function that takes only so many drops the
others. `functionCall?_eq` says so of all known functions at once, and later
proofs only look at the table of shapes.
-/

namespace QlikMigration.Spark

open QlikMigration.Text QlikMigration.Script

/-! ## Quiet texts -/

/-- Whether a text has no equals or less-than sign and no space behind a word, where it is
said whether it stands behind a word itself. -/
def quietAfter (word : Bool) : List Char → Bool
  | [] => true
  | c :: cs => c != '=' && c != '<' && !(word && c == ' ') && quietAfter (isWord c) cs

/-- Whether a text is quiet wherever it stands. -/
def isQuiet (cs : List Char) : Bool :=
  quietAfter true cs

theorem quietAfter_of_isQuiet {cs : List Char} (h : isQuiet cs = true) (word : Bool) :
    quietAfter word cs = true := by
  cases word with
  | true => exact h
  | false =>
      cases cs with
      | nil => rfl
      | cons c cs => simp_all [isQuiet, quietAfter]

theorem quietAfter_append {word : Bool} {front rest : List Char}
    (hfront : quietAfter word front = true) (hrest : isQuiet rest = true) :
    quietAfter word (front ++ rest) = true := by
  induction front generalizing word with
  | nil => exact quietAfter_of_isQuiet hrest word
  | cons c front ih =>
      rw [quietAfter, Bool.and_eq_true] at hfront
      rw [List.cons_append, quietAfter, hfront.1, ih hfront.2, Bool.and_self]

theorem isQuiet_append {front rest : List Char} (hfront : isQuiet front = true)
    (hrest : isQuiet rest = true) : isQuiet (front ++ rest) = true :=
  quietAfter_append hfront hrest

theorem isQuiet_of_not_mem {cs : List Char} (hequals : '=' ∉ cs) (hless : '<' ∉ cs)
    (hspace : ' ' ∉ cs) : isQuiet cs = true := by
  have hafter : ∀ word, quietAfter word cs = true := by
    induction cs with
    | nil => exact fun _ => rfl
    | cons c cs ih =>
        rw [List.mem_cons, not_or] at hequals hless hspace
        intro word
        rw [quietAfter, ih hequals.2 hless.2 hspace.2]
        simp [Ne.symm hequals.1, Ne.symm hless.1, Ne.symm hspace.1]
  exact hafter true

theorem quietAfter_of_append_cons {word : Bool} {front rest : List Char} {c : Char}
    (h : quietAfter word (front ++ c :: rest) = true) :
    c ≠ '=' ∧ c ≠ '<' ∧ quietAfter (isWord c) rest = true := by
  induction front generalizing word with
  | nil => simp_all [quietAfter]
  | cons d front ih =>
      rw [List.cons_append, quietAfter, Bool.and_eq_true] at h
      exact ih h.2

/-- A quiet text has no operators, and no connective between spaces. -/
theorem convertOperators_of_isQuiet {cs : List Char} (h : isQuiet cs = true) :
    convertOperators cs = cs := by
  have hletter : ∀ word ∈ connectiveWords, ∃ front c, word = front ++ [c] ∧ isWord c = true := by
    intro word hword
    have hne : word ≠ [] := fun hnil => absurd (hnil ▸ hword) (by decide)
    exact ⟨word.dropLast, word.getLast hne, (List.dropLast_concat_getLast hne).symm,
      (of_mem_connectiveWords word hword).1 _ (List.getLast_mem hne)⟩
  refine convertOperators_eq_self_iff.mpr ⟨?_, ?_, ?_⟩
  · intro word hword
    obtain ⟨start, c, rfl, hc⟩ := hletter word hword
    rw [Bool.eq_false_iff, Ne, contains_iff]
    rintro ⟨front, rest, rfl⟩
    have hcut : front ++ Spelling.spaced (start ++ [c]) ++ rest =
        (front ++ ' ' :: start) ++ c :: ' ' :: rest := by
      simp [Spelling.spaced]
    rw [hcut] at h
    have hspace := (quietAfter_of_append_cons h).2.2
    rw [hc] at hspace
    cases hspace
  · rintro front rest rfl
    exact absurd rfl (quietAfter_of_append_cons h).1
  · rw [Bool.eq_false_iff, Ne, contains_iff]
    rintro ⟨front, rest, rfl⟩
    rw [List.append_assoc] at h
    exact absurd rfl (quietAfter_of_append_cons h).2.1

/-! ## Lists of texts -/

/-- Texts with a comma and a space between them. -/
def listed (pieces : List (List Char)) : List Char :=
  [',', ' '].intercalate pieces

theorem listed_cons (piece : List Char) {pieces : List (List Char)} (hne : pieces ≠ []) :
    listed (piece :: pieces) = piece ++ ',' :: ' ' :: listed pieces := by
  obtain ⟨other, pieces, rfl⟩ := List.exists_cons_of_ne_nil hne
  rw [listed, List.intercalate_cons_cons, List.append_assoc]
  rfl

theorem listed_singleton (piece : List Char) : listed [piece] = piece := by
  simp [listed]

theorem listed_append {front rest : List (List Char)} (hfront : front ≠ []) (hrest : rest ≠ []) :
    listed (front ++ rest) = listed front ++ ',' :: ' ' :: listed rest := by
  induction front with
  | nil => exact absurd rfl hfront
  | cons piece front ih =>
      rw [List.cons_append, listed_cons piece (by simp [hrest])]
      by_cases hnil : front = []
      · rw [hnil, List.nil_append, listed_singleton]
      · rw [ih hnil, listed_cons piece hnil]
        simp

theorem toList_call (name : String) (args : List String) :
    (call name args).toList =
      name.toList ++ '(' :: (listed (args.map String.toList) ++ [')']) := by
  simp [call, listed, String.toList_intercalate]

/-! ## Shapes -/

/-- How the call of a function is written. -/
inductive CallShape
  /-- All arguments between parentheses behind a name. -/
  | spread (target : String)
  /-- As many arguments as there are texts, each behind its text. What closes the call
  depends on how many there are: a parenthesis, unless another text is given. -/
  | limited (texts closings : List String)
  deriving DecidableEq, Repr

namespace CallShape

/-- What stands before the next argument when so many are written, if another one is. -/
def before : CallShape → Nat → Option (List Char)
  | .spread target, 0 => some (target.toList ++ ['('])
  | .spread _, _ + 1 => some [',', ' ']
  | .limited texts _, count => texts[count]?.map String.toList

/-- What stands behind the last of so many arguments. -/
def closing : CallShape → Nat → List Char
  | .spread _, _ => [')']
  | .limited _ closings, count => (closings[count - 1]?.getD ")").toList

/-- A call from the argument on that stands behind so many others. -/
def write (shape : CallShape) : Nat → List (List Char) → List Char
  | count, [] => shape.closing count
  | count, arg :: args =>
    match shape.before count with
    | some text => text ++ (arg ++ shape.write (count + 1) args)
    | none => shape.closing count

end CallShape

/-- The shape of a function that is converted by name. -/
def Target.shape : Target → CallShape
  | .renamed name => .spread name
  | .wrapped opening closing => .limited [opening] [closing]

/-- The shape of a function. -/
def shape (name : String) : CallShape :=
  match name with
  | "AddMonths" => .limited ["add_months(", ", "] [", 0)"]
  | "AddYears" => .limited ["add_months(", ", "] [", 0)", "*12)"]
  | "MonthStart" => .limited ["trunc("] [", 'month')"]
  | "MonthEnd" => .limited ["last_day("] []
  | "YearStart" => .limited ["trunc("] [", 'year')"]
  | "MakeDate" => .limited ["make_date(", ", ", ", "] []
  | "SubField" => .limited ["split(", ", ", ")["] [", ',')", ")", "-1]"]
  | "If" =>
    .limited ["when(", ", ", ").otherwise("] [", True).otherwise(False)", ").otherwise(None)"]
  | "ApplyMap" => .spread "# ApplyMap"
  | "Lookup" => .spread "# Lookup"
  | _ => (target? name).elim (.spread name) Target.shape

/-- What follows the first argument of a call: the others behind commas, and a
parenthesis. -/
def callEnd (args : List (List Char)) : List Char :=
  (args.flatMap fun arg => ',' :: ' ' :: arg) ++ [')']

theorem callEnd_nil : callEnd [] = [')'] := rfl

theorem callEnd_cons (arg : List Char) (args : List (List Char)) :
    callEnd (arg :: args) = ',' :: ' ' :: (arg ++ callEnd args) := by
  simp [callEnd]

theorem callEnd_ne_nil (args : List (List Char)) : callEnd args ≠ [] := by
  simp [callEnd]

theorem listed_append_closing (piece : List Char) (pieces : List (List Char)) :
    listed (piece :: pieces) ++ [')'] = piece ++ callEnd pieces := by
  induction pieces generalizing piece with
  | nil => rw [listed_singleton, callEnd_nil]
  | cons other pieces ih =>
      rw [listed_cons piece (List.cons_ne_nil other pieces), callEnd_cons, ← ih other]
      simp

namespace CallShape

theorem write_spread_succ (target : String) (count : Nat) (args : List (List Char)) :
    (spread target).write (count + 1) args = callEnd args := by
  induction args generalizing count with
  | nil => rfl
  | cons arg args ih => rw [write, before, ih, callEnd_cons]; rfl

theorem write_spread (target : String) (first : List Char) (rest : List (List Char)) :
    (spread target).write 0 (first :: rest) =
      target.toList ++ '(' :: (first ++ callEnd rest) := by
  rw [write, before, write_spread_succ]
  simp

/-- Further arguments are dropped. -/
theorem write_limited_of_length_le {texts closings : List String} {count : Nat}
    (h : texts.length ≤ count) (args : List (List Char)) :
    (limited texts closings).write count args = (limited texts closings).closing count := by
  cases args with
  | nil => rfl
  | cons arg args => rw [write, before, List.getElem?_eq_none h]; rfl

end CallShape

/-! ## Converted calls have the shapes -/

theorem toList_call_cons (name first : String) (rest : List String) :
    (call name (first :: rest)).toList =
      (CallShape.spread name).write 0 ((first :: rest).map String.toList) := by
  rw [toList_call, List.map_cons, listed_append_closing, CallShape.write_spread]

/-- The special functions without a rule. -/
def keptFunctions : List String :=
  ["YearEnd", "WeekStart", "WeekEnd", "Timestamp", "TextBetween", "MapSubString", "Pick", "Match",
   "WildMatch"]

/-- A special function without a rule keeps its name and its arguments. -/
theorem specialCall_of_mem_keptFunctions {name : String} (hkept : name ∈ keptFunctions)
    (first : String) (rest : List String) :
    specialCall name first rest = call name (first :: rest) ∧ shape name = .spread name := by
  simp only [keptFunctions, List.mem_cons, List.not_mem_nil, or_false] at hkept
  rcases hkept with rfl | rfl | rfl | rfl | rfl | rfl | rfl | rfl | rfl <;> exact ⟨rfl, rfl⟩

/-- The special functions with a rule. -/
def ruledFunctions : List String :=
  ["AddMonths", "AddYears", "MonthStart", "MonthEnd", "YearStart", "MakeDate", "SubField", "If",
   "ApplyMap", "Lookup"]

theorem toList_specialCall_of_mem_ruledFunctions {name : String} (hruled : name ∈ ruledFunctions)
    (first : String) (rest : List String) :
    (specialCall name first rest).toList =
      (shape name).write 0 ((first :: rest).map String.toList) := by
  simp only [ruledFunctions, List.mem_cons, List.not_mem_nil, or_false] at hruled
  rcases hruled with rfl | rfl | rfl | rfl | rfl | rfl | rfl | rfl | rfl | rfl
  case inr.inr.inr.inr.inr.inr.inr.inr.inl =>
    rw [show shape "ApplyMap" = .spread "# ApplyMap" from rfl, ← toList_call_cons]
    rfl
  case inr.inr.inr.inr.inr.inr.inr.inr.inr =>
    rw [show shape "Lookup" = .spread "# Lookup" from rfl, ← toList_call_cons]
    rfl
  -- Rules look at up to three arguments.
  all_goals rcases rest with _ | ⟨second, _ | ⟨third, rest⟩⟩
  all_goals
    simp [specialCall, shape, CallShape.write, CallShape.before, CallShape.closing, toList_call,
      listed, CallShape.write_limited_of_length_le]

theorem toList_specialCall {name : String} (hspecial : name ∈ specialFunctions)
    (hhash : '#' ∉ name.toList) (first : String) (rest : List String) :
    (specialCall name first rest).toList =
      (shape name).write 0 ((first :: rest).map String.toList) := by
  have hcases : ∀ name ∈ specialFunctions, '#' ∉ name.toList →
      name ∈ ruledFunctions ∨ name ∈ keptFunctions := by decide
  rcases hcases name hspecial hhash with hruled | hkept
  · exact toList_specialCall_of_mem_ruledFunctions hruled first rest
  · obtain ⟨hcall, hshape⟩ := specialCall_of_mem_keptFunctions hkept first rest
    rw [hcall, hshape, toList_call_cons]

theorem shape_of_not_mem_specialFunctions {name : String} (hspecial : name ∉ specialFunctions) :
    shape name = (target? name).elim (.spread name) Target.shape := by
  unfold shape
  split
  case h_11 => rfl
  all_goals exact absurd (by decide) hspecial

theorem toList_namedCall {name : String} (htrim : trimmedName name = name)
    (hspecial : name ∉ specialFunctions) (first : String) (rest : List String) :
    (namedCall name (first :: rest)).toList =
      (shape name).write 0 ((first :: rest).map String.toList) := by
  rw [shape_of_not_mem_specialFunctions hspecial, namedCall, htrim]
  cases target? name with
  | none => exact toList_call_cons name first rest
  | some target =>
      cases target with
      | renamed target => exact toList_call_cons target first rest
      | wrapped opening closing =>
          simp [Target.shape, CallShape.write, CallShape.before, CallShape.closing,
            CallShape.write_limited_of_length_le]

/-- A call with arguments is written in the shape of its function. -/
theorem toList_functionCall {name : String} (htrim : trimmedName name = name)
    (hhash : '#' ∉ name.toList) (first : String) (rest : List String) :
    (functionCall name first rest).toList =
      (shape name).write 0 ((first :: rest).map String.toList) := by
  rw [functionCall, htrim]
  split
  case isTrue hspecial =>
    exact toList_specialCall (List.contains_iff_mem.mp hspecial) hhash first rest
  case isFalse hspecial =>
    exact toList_namedCall htrim (mt List.contains_iff_mem.mpr hspecial) first rest

variable {word : List Char}

theorem functionCall?_eq (hword : word.all isWord = true) {args : List (List Char)}
    (hne : args ≠ []) :
    functionCall? (String.ofList word) (args.map String.ofList) =
      some (String.ofList ((shape (String.ofList word)).write 0 args)) := by
  obtain ⟨first, rest, rfl⟩ := List.exists_cons_of_ne_nil hne
  have hletters := List.all_eq_true.mp hword
  have htrim : trimmedName (String.ofList word) = String.ofList word := by
    rw [trimmedName, String.toList_ofList, trim,
      trimOf_eq_self fun c hc => isBlank_of_isWord (hletters c hc)]
  have hhash : '#' ∉ (String.ofList word).toList := by
    rw [String.toList_ofList]
    exact fun hmem => absurd (hletters '#' hmem) (by decide)
  rw [List.map_cons, functionCall?, Option.some_inj, ← String.toList_inj,
    toList_functionCall htrim hhash, String.toList_ofList]
  simp [Function.comp_def]

theorem splitOn_listed {piece : List Char} {pieces : List (List Char)} (hpiece : ',' ∉ piece)
    (hpieces : ∀ other ∈ pieces, ',' ∉ other) :
    List.splitOn ',' (listed (piece :: pieces)) = piece :: pieces.map (' ' :: ·) := by
  induction pieces generalizing piece with
  | nil => rw [listed_singleton, List.splitOn_eq_singleton hpiece, List.map_nil]
  | cons other pieces ih =>
      rw [List.forall_mem_cons] at hpieces
      have hspace : ' ' :: listed (other :: pieces) = listed ((' ' :: other) :: pieces) := by
        cases pieces with
        | nil => rw [listed_singleton, listed_singleton]
        | cons => rfl
      have hlater := @ih (' ' :: other) (by simp [hpieces.1]) hpieces.2
      rw [listed_cons piece (List.cons_ne_nil other pieces),
        List.splitOn_append_cons_self_of_not_mem hpiece, hspace,
        hlater, List.map_cons]

/-- A call is written in the shape of its function, with the text between its parentheses cut at
the commas. -/
theorem convertCall_eq (hword : word.all isWord = true) (argText : List Char) :
    convertCall word argText =
      (shape (String.ofList word)).write 0 ((List.splitOn ',' argText).map trim) := by
  obtain ⟨first, rest, hcut⟩ := List.exists_cons_of_ne_nil
    (show List.splitOn ',' argText ≠ [] from List.splitOnP_ne_nil _ argText)
  have hcall := functionCall?_eq hword (List.cons_ne_nil (trim first) (rest.map trim))
  rw [List.map_cons, functionCall?, Option.some_inj, List.map_map] at hcall
  rw [convertCall, hcut, List.map_cons, List.map_cons]
  exact (congrArg String.toList hcall).trans String.toList_ofList

/-- A call whose arguments have no commas and no white space is written in the shape of its
function. -/
theorem convertCall_listed (hword : word.all isWord = true) {args : List (List Char)}
    (hne : args ≠ []) (hcomma : ∀ arg ∈ args, ',' ∉ arg)
    (hblank : ∀ arg ∈ args, ∀ c ∈ arg, isBlank c = false) :
    convertCall word (listed args) = (shape (String.ofList word)).write 0 args := by
  obtain ⟨first, rest, rfl⟩ := List.exists_cons_of_ne_nil hne
  rw [List.forall_mem_cons] at hcomma
  have htrim : ∀ arg ∈ first :: rest, trim arg = arg := fun arg harg =>
    trimOf_eq_self (hblank arg harg)
  have hrest : (rest.map (' ' :: ·)).map trim = rest := by
    rw [List.map_map]
    conv_rhs => rw [← List.map_id rest]
    refine List.map_congr_left fun arg harg => ?_
    show trim (' ' :: arg) = arg
    rw [trim_cons_of_isBlank (by decide), htrim arg (List.mem_cons_of_mem first harg)]
  rw [convertCall_eq hword, splitOn_listed hcomma.1 hcomma.2, List.map_cons, hrest,
    htrim first List.mem_cons_self]

/-! ## What the shapes have in common -/

namespace CallShape

/-- Whether all texts of a shape are quiet. -/
def isQuiet : CallShape → Bool
  | .spread target => Spark.isQuiet target.toList
  | .limited texts closings => (texts ++ closings).all fun text => Spark.isQuiet text.toList

theorem isQuiet_of_before {shape : CallShape} (h : shape.isQuiet = true) {count : Nat}
    {text : List Char} (hbefore : shape.before count = some text) :
    Spark.isQuiet text = true := by
  cases shape with
  | spread target =>
      cases count with
      | zero =>
          obtain rfl := Option.some.inj hbefore
          exact isQuiet_append h (by decide)
      | succ count =>
          obtain rfl := Option.some.inj hbefore
          decide
  | limited texts closings =>
      obtain ⟨string, hstring, rfl⟩ := Option.map_eq_some_iff.mp hbefore
      exact List.all_eq_true.mp h string
        (List.mem_append_left closings (List.mem_of_getElem? hstring))

theorem isQuiet_closing {shape : CallShape} (h : shape.isQuiet = true) (count : Nat) :
    Spark.isQuiet (shape.closing count) = true := by
  cases shape with
  | spread target => rfl
  | limited texts closings =>
      rw [closing]
      cases hstring : closings[count - 1]? with
      | none => decide
      | some string =>
          exact List.all_eq_true.mp h string
            (List.mem_append_right texts (List.mem_of_getElem? hstring))

/-- A call is quiet if its arguments are. -/
theorem isQuiet_write {shape : CallShape} (h : shape.isQuiet = true) {args : List (List Char)}
    (hargs : ∀ arg ∈ args, Spark.isQuiet arg = true) (count : Nat) :
    Spark.isQuiet (shape.write count args) = true := by
  induction args generalizing count with
  | nil => exact isQuiet_closing h count
  | cons arg args ih =>
      rw [List.forall_mem_cons] at hargs
      rw [write]
      cases hbefore : shape.before count with
      | none => exact isQuiet_closing h count
      | some text =>
          exact isQuiet_append (isQuiet_of_before h hbefore)
            (isQuiet_append hargs.1 (ih hargs.2 (count + 1)))

end CallShape

namespace CallShape

/-- What stands before the first argument. -/
def opening : CallShape → List Char
  | .spread target => target.toList ++ ['(']
  | .limited texts _ => (texts.headD "").toList

theorem before_zero {shape : CallShape} (h : shape.opening ≠ []) :
    shape.before 0 = some shape.opening := by
  cases shape with
  | spread target => rfl
  | limited texts closings =>
      cases texts with
      | nil => exact absurd rfl h
      | cons text texts => rfl

/-- Whether a text between two arguments is a comma and a space or begins with a parenthesis. -/
def isSeparator (text : List Char) : Bool :=
  text == [',', ' '] || text.head? == some ')'

/-- Whether a text may close a call: it begins with a character that is in no argument, and
after a parenthesis it ends or goes on with a full stop. -/
def isClosing : List Char → Bool
  | [] => false
  | ')' :: rest => rest.isEmpty || rest.head? == some '.'
  | c :: _ => !isWord c && c != '(' && c != '\'' && c != '.'

/-- Whether a text begins otherwise than a further argument. -/
def isFinal : List Char → Bool
  | [] => false
  | ',' :: ' ' :: c :: _ => !isWord c && c != '#'
  | ',' :: _ => false
  | _ :: _ => true

/-- Whether the texts of a shape tell where a call goes on and where it ends. -/
def isRegular : CallShape → Bool
  | .spread _ => true
  | .limited texts closings =>
    texts.tail.all (fun text => isSeparator text.toList) &&
      closings.all (fun text => isClosing text.toList) &&
      (closings.drop (texts.length - 1)).all (fun text => isFinal text.toList)

theorem isSeparator_of_before {shape : CallShape} (h : shape.isRegular = true) {count : Nat}
    {text : List Char} (hbefore : shape.before (count + 1) = some text) :
    isSeparator text = true := by
  cases shape with
  | spread target =>
      obtain rfl := Option.some.inj hbefore
      rfl
  | limited texts closings =>
      obtain ⟨string, hstring, rfl⟩ := Option.map_eq_some_iff.mp hbefore
      rw [isRegular, Bool.and_eq_true, Bool.and_eq_true] at h
      rw [← List.getElem?_tail] at hstring
      exact List.all_eq_true.mp h.1.1 string (List.mem_of_getElem? hstring)

theorem isClosing_closing {shape : CallShape} (h : shape.isRegular = true) (count : Nat) :
    isClosing (shape.closing count) = true := by
  cases shape with
  | spread target => rfl
  | limited texts closings =>
      rw [isRegular, Bool.and_eq_true, Bool.and_eq_true] at h
      rw [closing]
      cases hstring : closings[count - 1]? with
      | none => decide
      | some string => exact List.all_eq_true.mp h.1.2 string (List.mem_of_getElem? hstring)

/-- Where arguments are dropped, the call does not seem to go on. -/
theorem isFinal_closing {shape : CallShape} (h : shape.isRegular = true) {count : Nat}
    (hbefore : shape.before count = none) : isFinal (shape.closing count) = true := by
  cases shape with
  | spread target => rfl
  | limited texts closings =>
      rw [isRegular, Bool.and_eq_true, Bool.and_eq_true] at h
      rw [closing]
      cases hstring : closings[count - 1]? with
      | none => decide
      | some string =>
          have hlength : texts.length ≤ count :=
            List.getElem?_eq_none_iff.mp (Option.map_eq_none_iff.mp hbefore)
          have hindex : texts.length - 1 + (count - 1 - (texts.length - 1)) = count - 1 := by omega
          have hdrop : (closings.drop (texts.length - 1))[count - 1 - (texts.length - 1)]? =
              some string := by
            rw [List.getElem?_drop, hindex, hstring]
          exact List.all_eq_true.mp h.2 string (List.mem_of_getElem? hdrop)

/-- Whether a text begins like an argument. -/
def startsArgument : List Char → Bool
  | [] => false
  | c :: _ => isWord c || c == '#'

theorem startsArgument_append {cs : List Char} (h : startsArgument cs = true) (rest : List Char) :
    startsArgument (cs ++ rest) = true := by
  cases cs with
  | nil => cases h
  | cons c cs => exact h

theorem startsArgument_of_startsWord {cs : List Char} (h : startsWord cs = true) :
    startsArgument cs = true := by
  cases cs with
  | nil => cases h
  | cons c cs =>
      have hc : isWord c = true := h
      rw [startsArgument, hc, Bool.true_or]

theorem write_zero {shape : CallShape} (h : startsArgument shape.opening = true)
    (first : List Char) (rest : List (List Char)) :
    shape.write 0 (first :: rest) = shape.opening ++ (first ++ shape.write 1 rest) := by
  have hne : shape.opening ≠ [] := by
    intro hnil
    rw [hnil] at h
    cases h
  rw [write, before_zero hne]

/-- What is known of the shape of a function by this name: its texts are quiet. It keeps the
name, or it is the first argument alone, or it is regular and begins otherwise than the name. -/
def fits (name : String) (shape : CallShape) : Bool :=
  shape.isQuiet && (shape == .spread name || name == "Dual" && shape == .limited [""] [""] ||
    shape.isRegular && startsArgument shape.opening &&
      shape.opening.head? != name.toList.head?)

end CallShape

theorem fits_of_target? {name : String} {target : Target} (h : target? name = some target) :
    target.shape.fits name = true := by
  unfold target? at h
  split at h
  case h_50 => cases h
  all_goals
    obtain rfl := Option.some.inj h
    decide

/-- Every word has a shape that fits. -/
theorem fits_shape (hword : word.all isWord = true) :
    (shape (String.ofList word)).fits (String.ofList word) = true := by
  have hspecial : ∀ name ∈ specialFunctions, (shape name).fits name = true := by decide
  by_cases hmem : String.ofList word ∈ specialFunctions
  · exact hspecial _ hmem
  · rw [shape_of_not_mem_specialFunctions hmem]
    cases htarget : target? (String.ofList word) with
    | some target => exact fits_of_target? htarget
    | none =>
        have habsent : ∀ {c : Char}, isWord c = false → c ∉ word := fun hc hmem =>
          ne_of_isWord (List.all_eq_true.mp hword _ hmem) hc rfl
        have hquiet := isQuiet_of_not_mem (habsent (by decide)) (habsent (by decide))
          (habsent (by decide))
        simp [CallShape.fits, CallShape.isQuiet, hquiet]

end QlikMigration.Spark
