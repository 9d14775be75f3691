import QlikMigration.Command.Convert
import QlikMigration.Proofs.FixedTexts
import QlikMigration.Proofs.Layout
import QlikMigration.Proofs.Writing

/-!
# Where a converted script goes

The program and the semantic model of a script go to two files whose names are
made from that of the script: each of its extensions, wherever it stands, is
replaced by the ending of the output. This is done step by step along the path,
and neither makes nor destroys the dots that lead around.

So the place of an output is that of the script with each of its steps renamed.
The three places are different if one of these steps has an extension, and
otherwise they are one place. Then the program is written over the script and
the model over the program. An extension in the path is not enough: a folder
that is left again by two dots is no step of the place.
-/

namespace QlikMigration

open Text

/-! ## Names that are changed step by step -/

/-- A way to change texts that treats the steps of a path apart, and with which exactly the
steps that are no names stay what they are. -/
structure Stepwise (pass : List Char → List Char) : Prop where
  cut : ∀ front rest, pass (front ++ '/' :: rest) = pass front ++ '/' :: pass rest
  free : ∀ cs, '/' ∉ cs → '/' ∉ pass cs
  nameless : ∀ cs, ∀ step ∈ Directory.namelessSteps, pass cs = step.toList ↔ cs = step.toList

/-- A name with its text changed. -/
def changedBy (pass : List Char → List Char) (name : String) : String :=
  String.ofList (pass name.toList)

/-- The pieces of a written path are one without slashes at its end, and before it such ones
with a slash behind. -/
theorem path_induction {motive : List Char → Prop}
    (last : ∀ piece, '/' ∉ piece → motive piece)
    (more : ∀ piece rest, '/' ∉ piece → motive rest → motive (piece ++ '/' :: rest))
    (cs : List Char) : motive cs := by
  by_cases hslash : '/' ∈ cs
  · obtain ⟨piece, rest, hcs, hpiece⟩ := List.eq_append_cons_of_mem hslash
    have hshorter : rest.length < cs.length := by
      rw [hcs, List.length_append, List.length_cons]
      omega
    rw [hcs]
    exact more piece rest hpiece (path_induction last more rest)
  · exact last cs hslash
termination_by cs.length
decreasing_by exact hshorter

namespace Stepwise

variable {pass : List Char → List Char}

theorem splitOn_pass (h : Stepwise pass) (cs : List Char) :
    List.splitOn '/' (pass cs) = (List.splitOn '/' cs).map pass := by
  induction cs using path_induction with
  | last piece hpiece =>
      rw [List.splitOn_eq_singleton hpiece, List.splitOn_eq_singleton (h.free piece hpiece),
        List.map_singleton]
  | more piece rest hpiece ih =>
      rw [h.cut, List.splitOn_append_cons_self_of_not_mem (h.free piece hpiece), ih,
        List.splitOn_append_cons_self_of_not_mem hpiece, List.map_cons]

theorem pass_eq_nil_iff (h : Stepwise pass) (cs : List Char) : pass cs = [] ↔ cs = [] :=
  h.nameless cs "" (by decide)

theorem changedBy_eq_iff (h : Stepwise pass) {nameless : String}
    (hnameless : nameless ∈ Directory.namelessSteps) (step : String) :
    changedBy pass step = nameless ↔ step = nameless := by
  rw [← String.toList_inj, changedBy, String.toList_ofList, h.nameless _ nameless hnameless,
    String.toList_inj]

theorem pieces_changedBy (h : Stepwise pass) (name : String) :
    FilePath.pieces (changedBy pass name) = (FilePath.pieces name).map (changedBy pass) := by
  rw [FilePath.pieces, changedBy, String.toList_ofList, h.splitOn_pass, List.map_map,
    FilePath.pieces, List.map_map]
  exact List.map_congr_left fun piece _ => by simp [changedBy]

theorem isPrefixOf_pass (h : Stepwise pass) (cs : List Char) :
    ['/'].isPrefixOf (pass cs) = ['/'].isPrefixOf cs := by
  rw [Bool.eq_iff_iff, List.isPrefixOf_iff_prefix, List.isPrefixOf_iff_prefix]
  induction cs using path_induction with
  | last piece hpiece =>
      exact ⟨fun hpass => absurd (hpass.subset List.mem_cons_self) (h.free piece hpiece),
        fun hcs => absurd (hcs.subset List.mem_cons_self) hpiece⟩
  | more piece rest hpiece _ =>
      have hstart : ∀ {front rest : List Char}, '/' ∉ front →
          (['/'] <+: front ++ '/' :: rest ↔ front = []) := by
        intro front rest hfree
        cases front with
        | nil => simp
        | cons c front => simp_all
      rw [h.cut, hstart (h.free piece hpiece), hstart hpiece, h.pass_eq_nil_iff]

theorem isSuffixOf_pass (h : Stepwise pass) (cs : List Char) :
    ['/'].isSuffixOf (pass cs) = ['/'].isSuffixOf cs := by
  rw [Bool.eq_iff_iff, Script.isSuffixOf_singleton_iff, Script.isSuffixOf_singleton_iff]
  induction cs using path_induction with
  | last piece hpiece =>
      exact ⟨fun hpass => absurd (List.mem_of_getLast? hpass) (h.free piece hpiece),
        fun hcs => absurd (List.mem_of_getLast? hcs) hpiece⟩
  | more piece rest hpiece ih =>
      have hend : ∀ front rest : List Char, (front ++ '/' :: rest).getLast? = some '/' ↔
          rest = [] ∨ rest.getLast? = some '/' := by
        intro front rest
        rw [List.getLast?_append_cons]
        cases rest with
        | nil => simp
        | cons c rest => simp [List.getLast?_cons_cons]
      rw [h.cut, hend, hend, h.pass_eq_nil_iff, ih]

theorem stepFrom_changedBy (h : Stepwise pass) (place : List String) (step : String) :
    Directory.stepFrom (place.map (changedBy pass)) (changedBy pass step) =
      (Directory.stepFrom place step).map (changedBy pass) := by
  have hdot : changedBy pass step = "." ↔ step = "." := h.changedBy_eq_iff (by decide) step
  have hdots : changedBy pass step = ".." ↔ step = ".." := h.changedBy_eq_iff (by decide) step
  have hup : changedBy pass ".." = ".." := (h.changedBy_eq_iff (by decide) _).mpr rfl
  simp only [Directory.stepFrom, beq_iff_eq, hdot, hdots, List.getLast?_map]
  split
  · rfl
  · split
    · cases hlast : place.getLast? with
      | none => simp [hup]
      | some last =>
          -- What the dots do depends on the last step, which is no other dots or root than before.
          have hlastUp : changedBy pass last = ".." ↔ last = ".." :=
            h.changedBy_eq_iff (by decide) last
          have hlastRoot : changedBy pass last = "/" ↔ last = "/" :=
            h.changedBy_eq_iff (by decide) last
          by_cases hcases : last = ".." ∨ last = "/"
          · obtain rfl | rfl := hcases
            · simp [hup]
            · simp [hlastRoot.mpr rfl]
          · obtain ⟨hnotUp, hnotRoot⟩ := not_or.mp hcases
            simp [hnotUp, hnotRoot, hlastUp, hlastRoot, List.map_dropLast]
    · rw [List.map_append, List.map_singleton]

theorem foldl_stepFrom_changedBy (h : Stepwise pass) (steps place : List String) :
    (steps.map (changedBy pass)).foldl Directory.stepFrom (place.map (changedBy pass)) =
      (steps.foldl Directory.stepFrom place).map (changedBy pass) := by
  induction steps generalizing place with
  | nil => rfl
  | cons step steps ih => rw [List.map_cons, List.foldl_cons, h.stepFrom_changedBy, ih,
      List.foldl_cons]

theorem steps_changedBy (h : Stepwise pass) (name : String) :
    (FilePath.ofName (changedBy pass name)).steps =
      (FilePath.ofName name).steps.map (changedBy pass) := by
  have hempty : ((· != "") ∘ changedBy pass) = (· != "") := by
    funext step
    rw [Function.comp_apply, Bool.eq_iff_iff, bne_iff_ne, bne_iff_ne]
    exact not_congr (h.changedBy_eq_iff (by decide) step)
  have hdot : changedBy pass "." = "." := (h.changedBy_eq_iff (by decide) _).mpr rfl
  have hends : ['/'].isSuffixOf (changedBy pass name).toList = ['/'].isSuffixOf name.toList := by
    rw [changedBy, String.toList_ofList, h.isSuffixOf_pass]
  simp only [FilePath.ofName, h.pieces_changedBy, List.filter_map, hempty, hends]
  split
  · rw [List.map_append, List.map_singleton, hdot]
  · rfl

/-- A path whose name is changed leads to the place with all steps changed. -/
theorem place_changedBy (h : Stepwise pass) (name : String) :
    (FilePath.ofName (changedBy pass name)).place =
      (FilePath.ofName name).place.map (changedBy pass) := by
  have hroot : changedBy pass "/" = "/" := (h.changedBy_eq_iff (by decide) _).mpr rfl
  have habsolute : (FilePath.ofName (changedBy pass name)).absolute =
      (FilePath.ofName name).absolute := by
    show ['/'].isPrefixOf (changedBy pass name).toList = ['/'].isPrefixOf name.toList
    rw [changedBy, String.toList_ofList, h.isPrefixOf_pass]
  rw [FilePath.place, FilePath.place, habsolute, h.steps_changedBy,
    ← h.foldl_stepFrom_changedBy]
  congr 1
  split
  · rw [List.map_singleton, hroot]
  · rfl

end Stepwise

namespace Command

/-! ## The names of the outputs -/

/-- What a conversion writes. -/
inductive Output
  | program
  | model
  deriving DecidableEq, Repr

/-- What an output has instead of the extension of a script. -/
def Output.ending : Output → String
  | program => "_output.py"
  | model => "_semantic.json"

/-- The name of an output's file, made from that of the script. -/
def Output.file : Output → String → String
  | program, input => programPath input none
  | model, input => modelPath input none

/-- Whether a text has the extension of a script somewhere. -/
def hasExtension (cs : List Char) : Bool :=
  contains ".qvs".toList cs || contains ".txt".toList cs

/-- A text with its extensions replaced by the ending of an output. -/
def Output.retitled (output : Output) (cs : List Char) : List Char :=
  replace ".txt".toList output.ending.toList (replace ".qvs".toList output.ending.toList cs)

theorem toList_renamed (name part replacement : String) :
    (renamed name part replacement).toList =
      replace part.toList replacement.toList name.toList :=
  String.toList_ofList

theorem file_eq_renamed (output : Output) (input : String) :
    output.file input = renamed (renamed input ".qvs" output.ending) ".txt" output.ending := by
  cases output <;> rfl

theorem file_eq_changedBy (output : Output) : output.file = changedBy output.retitled := by
  funext input
  rw [file_eq_renamed, renamed, toList_renamed]
  rfl

theorem toList_file (output : Output) (input : String) :
    (output.file input).toList = output.retitled input.toList := by
  rw [file_eq_changedBy, changedBy, String.toList_ofList]

theorem retitled_eq_self {cs : List Char} (h : hasExtension cs = false) (output : Output) :
    output.retitled cs = cs := by
  rw [hasExtension, Bool.or_eq_false_iff] at h
  rw [Output.retitled, Spark.replace_of_contains_eq_false h.1,
    Spark.replace_of_contains_eq_false h.2]

/-- A text with one dot, which does not begin an extension, is passed over. -/
theorem replace_append_of_dot {extension stem other : List Char} (hstem : '.' ∉ stem)
    (hother : '.' ∉ other) {rest : List Char}
    (hdiffer : ('.' :: extension).isPrefixOf ('.' :: (other ++ rest)) = false)
    (replacement : List Char) :
    replace ('.' :: extension) replacement (stem ++ '.' :: other ++ rest) =
      stem ++ '.' :: other ++ replace ('.' :: extension) replacement rest := by
  rw [List.append_assoc, Spark.replace_append_of_not_mem hstem, List.cons_append,
    Spark.replace_cons hdiffer, Spark.replace_append_of_not_mem hother, List.append_assoc,
    List.cons_append]

theorem replace_txt_ending (output : Output) (replacement rest : List Char) :
    replace ".txt".toList replacement (output.ending.toList ++ rest) =
      output.ending.toList ++ replace ".txt".toList replacement rest := by
  have htxt : ".txt".toList = ['.', 't', 'x', 't'] := by decide
  cases output with
  | program =>
      have hending : Output.program.ending.toList = "_output".toList ++ '.' :: ['p', 'y'] := by
        decide
      rw [hending, htxt]
      exact replace_append_of_dot (by decide) (by decide) rfl replacement
  | model =>
      have hending : Output.model.ending.toList =
          "_semantic".toList ++ '.' :: ['j', 's', 'o', 'n'] := by
        decide
      rw [hending, htxt]
      exact replace_append_of_dot (by decide) (by decide) rfl replacement

theorem replace_qvs_txt (replacement rest : List Char) :
    replace ".qvs".toList replacement (".txt".toList ++ rest) =
      ".txt".toList ++ replace ".qvs".toList replacement rest := by
  have hqvs : ".qvs".toList = ['.', 'q', 'v', 's'] := by decide
  have htxt : ".txt".toList = [] ++ '.' :: ['t', 'x', 't'] := by decide
  rw [hqvs, htxt]
  exact replace_append_of_dot (by decide) (by decide) rfl replacement

/-- Replacing the one extension does not make the other: an ending begins with an underscore. -/
theorem isPrefixOf_txt_cons_replace (output : Output) {c : Char} {cs : List Char}
    (h : ".txt".toList.isPrefixOf (c :: cs) = false) :
    ".txt".toList.isPrefixOf (c :: replace ".qvs".toList output.ending.toList cs) = false := by
  have hsplit : ".txt".toList = '.' :: "txt".toList := by decide
  have hhead : output.ending.toList.head? = some '_' := by cases output <;> decide
  rw [Bool.eq_false_iff] at h ⊢
  refine mt (fun hstarts => ?_) h
  rw [List.isPrefixOf_iff_prefix, hsplit, List.cons_prefix_cons] at hstarts ⊢
  refine ⟨hstarts.1, prefix_of_prefix_replace (by decide) ?_ ?_ hstarts.2⟩
  · cases output <;> decide
  · intro d hd
    rw [hhead] at hd
    obtain rfl := Option.some.inj hd
    decide

/-- The first extension of a name is replaced, for every output by its ending. -/
theorem exists_first_extension {cs : List Char} (h : hasExtension cs = true) :
    ∃ front tail, cs = front ++ '.' :: tail ∧
      ∀ output : Output, ∃ rest, output.retitled cs = front ++ (output.ending.toList ++ rest) := by
  induction cs with
  | nil => exact absurd h (by decide)
  | cons c cs ih =>
      -- An extension that stands here is the first; it goes in one pass and the other leaves it.
      cases hqvs : ".qvs".toList.isPrefixOf (c :: cs) with
      | true =>
          obtain ⟨tail, htail⟩ := List.isPrefixOf_iff_prefix.mp hqvs
          refine ⟨[], "qvs".toList ++ tail, htail.symm, fun output => ?_⟩
          rw [← htail, Output.retitled, Spark.replace_self_append (by decide), replace_txt_ending]
          exact ⟨_, rfl⟩
      | false =>
          cases htxt : ".txt".toList.isPrefixOf (c :: cs) with
          | true =>
              obtain ⟨tail, htail⟩ := List.isPrefixOf_iff_prefix.mp htxt
              refine ⟨[], "txt".toList ++ tail, htail.symm, fun output => ?_⟩
              rw [← htail, Output.retitled, replace_qvs_txt, Spark.replace_self_append (by decide)]
              exact ⟨_, rfl⟩
          | false =>
              rw [hasExtension, contains, contains, hqvs, htxt, Bool.false_or, Bool.false_or] at h
              obtain ⟨front, tail, hcs, hretitled⟩ := ih h
              refine ⟨c :: front, tail, congrArg (c :: ·) hcs, fun output => ?_⟩
              obtain ⟨rest, hrest⟩ := hretitled output
              refine ⟨rest, ?_⟩
              have hlater := isPrefixOf_txt_cons_replace output htxt
              rw [Output.retitled, Spark.replace_cons hqvs, Spark.replace_cons hlater,
                ← Output.retitled, hrest, List.cons_append]

/-- No extension stands in a step that is no name, and no ending either. -/
theorem stepwise_retitled (output : Output) : Stepwise output.retitled where
  cut front rest := by
    rw [Output.retitled, Spark.replace_append_cons (by decide) (by decide),
      Spark.replace_append_cons (by decide) (by decide), Output.retitled, Output.retitled]
  free cs hcs hmem := by
    have hending : '/' ∉ output.ending.toList := by cases output <;> decide
    rcases Spark.mem_replace (by decide) hmem with hmem | hmem
    · exact (Spark.mem_replace (by decide) hmem).elim hcs hending
    · exact hending hmem
  nameless cs step hstep := by
    have hplain : ∀ step ∈ Directory.namelessSteps,
        '_' ∉ step.toList ∧ hasExtension step.toList = false := by
      decide
    obtain ⟨hfree, hbare⟩ := hplain step hstep
    cases hcs : hasExtension cs with
    | false => rw [retitled_eq_self hcs]
    | true =>
        obtain ⟨front, tail, -, hretitled⟩ := exists_first_extension hcs
        obtain ⟨rest, hrest⟩ := hretitled output
        have hending : '_' ∈ output.ending.toList := by cases output <;> decide
        constructor
        · intro hsame
          rw [← hsame, hrest] at hfree
          exact absurd (List.mem_append_right front (List.mem_append_left rest hending)) hfree
        · rintro rfl
          exact absurd hcs (Bool.eq_false_iff.mp hbare)

/-! ## The places of the outputs -/

/-- The place of a script. -/
def scriptPlace (input : String) : List String :=
  (FilePath.ofName input).place

/-- The place of an output. -/
def Output.place (output : Output) (input : String) : List String :=
  (FilePath.ofName (output.file input)).place

/-- Whether some step of a place has an extension. -/
def extensionAlong (place : List String) : Bool :=
  place.any fun step => hasExtension step.toList

theorem place_eq_map (output : Output) (input : String) :
    output.place input = (scriptPlace input).map output.file := by
  rw [Output.place, file_eq_changedBy, (stepwise_retitled output).place_changedBy, scriptPlace]

theorem file_eq_self {name : String} (h : hasExtension name.toList = false) (output : Output) :
    output.file name = name := by
  rw [← String.toList_inj, toList_file, retitled_eq_self h]

/-- The first extension of a name becomes a different ending in each output. -/
theorem nodup_files {name : String} (h : hasExtension name.toList = true) :
    [name, Output.program.file name, Output.model.file name].Nodup := by
  obtain ⟨front, tail, hname, hretitled⟩ := exists_first_extension h
  obtain ⟨program, hprogram⟩ := hretitled .program
  obtain ⟨model, hmodel⟩ := hretitled .model
  have hoPy : Output.program.ending.toList = '_' :: 'o' :: "utput.py".toList := by decide
  have hsJson : Output.model.ending.toList = '_' :: 's' :: "emantic.json".toList := by decide
  apply List.Nodup.of_map String.toList
  rw [List.map_cons, List.map_cons, List.map_singleton, toList_file, toList_file, hprogram,
    hmodel, hname, hoPy, hsJson]
  simp

theorem nodup_files_iff (name : String) :
    [name, Output.program.file name, Output.model.file name].Nodup ↔
      hasExtension name.toList = true := by
  refine ⟨fun hnodup => ?_, nodup_files⟩
  by_contra hbare
  rw [file_eq_self (Bool.eq_false_iff.mpr hbare)] at hnodup
  exact (List.nodup_cons.mp hnodup).1 List.mem_cons_self

theorem place_eq_scriptPlace {input : String} (h : extensionAlong (scriptPlace input) = false)
    (output : Output) : output.place input = scriptPlace input := by
  rw [place_eq_map, List.map_congr_left fun step hstep => ?_, List.map_id]
  exact file_eq_self (Bool.eq_false_iff.mpr (List.any_eq_false.mp h step hstep)) output

/-- Places that differ in one step are different. -/
theorem nodup_map_of_mem {place : List String} {first second : String → String} {step : String}
    (hstep : step ∈ place) (h : [step, first step, second step].Nodup) :
    [place, place.map first, place.map second].Nodup := by
  have hread : ∀ {one other : String → String}, place.map one = place.map other →
      one step = other step :=
    fun hsame => List.map_inj_left.mp hsame step hstep
  have hid : place = place.map id := (List.map_id place).symm
  simp only [List.nodup_cons, List.mem_cons, List.not_mem_nil, or_false, not_or,
    not_false_eq_true, List.nodup_nil, and_true] at h ⊢
  obtain ⟨⟨hfirst, hsecond⟩, hboth⟩ := h
  exact ⟨⟨fun hsame => hfirst (hread (hid.symm.trans hsame)),
    fun hsame => hsecond (hread (hid.symm.trans hsame))⟩, fun hsame => hboth (hread hsame)⟩

theorem nodup_places_iff (input : String) :
    [scriptPlace input, Output.program.place input, Output.model.place input].Nodup ↔
      extensionAlong (scriptPlace input) = true := by
  constructor
  · intro hnodup
    by_contra hbare
    rw [place_eq_scriptPlace (Bool.eq_false_iff.mpr hbare)] at hnodup
    exact (List.nodup_cons.mp hnodup).1 List.mem_cons_self
  · intro h
    obtain ⟨step, hstep, hextension⟩ := List.any_eq_true.mp h
    rw [place_eq_map, place_eq_map]
    exact nodup_map_of_mem hstep (nodup_files hextension)

/-! ## The files after a run -/

theorem writes_convertFile (input : String) (output : Option String) :
    (convertFile input output).Writes
      [(FilePath.ofName (programPath input output)).place,
        (FilePath.ofName (modelPath input output)).place] := by
  unfold convertFile
  refine (Effect.writes_printLine _).bind_nil fun _ => ?_
  refine (Effect.writes_look _ _).bind_nil fun script => ?_
  refine (Effect.writes_printLine _).bind_nil fun _ => ?_
  refine (Effect.writes_ofResult _ _).bind_nil fun statements => ?_
  refine (Effect.writes_printLine _).bind_nil fun _ => ?_
  refine (Effect.writes_printLine _).bind_nil fun _ => ?_
  refine (Effect.writes_ofResult _ _).bind_nil fun model => ?_
  refine (Effect.writes_printLine _).bind_nil fun _ => ?_
  refine (Effect.writes_printLine _).bind_nil fun _ => ?_
  refine (Effect.writes_printLine _).bind_nil fun _ => ?_
  refine (Effect.writes_ofResult _ _).bind_nil fun program => ?_
  refine (Effect.writes_printLine _).bind_nil fun _ => ?_
  refine (Effect.writes_writeName _ _ _).bind_cons fun _ => ?_
  refine (Effect.writes_printLine _).bind_nil fun _ => ?_
  refine (Effect.writes_writeName _ _ _).bind_cons fun _ => ?_
  refine (Effect.writes_printLine _).bind_nil fun _ => ?_
  refine (Effect.writes_printLine _).bind_nil fun _ => ?_
  refine (Effect.writes_printLine _).bind_nil fun _ => ?_
  exact Effect.writes_printLine _

/-- A conversion that succeeds reads the script, converts it and writes its two outputs. -/
theorem convertFile_eq_ok {input : String} {output : Option String} {world final : World}
    (h : (convertFile input output).perform world = (.ok (), final)) :
    ∃ script conversion, world.directory.readText input = .ok script ∧
      convert { script, session := some .provided } = .ok conversion ∧
      final.directory =
        (world.directory.put (FilePath.ofName (programPath input output)).place
          (.text conversion.program)).put (FilePath.ofName (modelPath input output)).place
          (.text conversion.semanticModel.pretty) := by
  unfold convertFile at h
  rw [Effect.perform_printLine_bind, Effect.perform_look_bind_eq_ok_iff] at h
  obtain ⟨script, hscript, h⟩ := h
  rw [Effect.perform_printLine_bind, Effect.perform_ofResult_bind_eq_ok_iff] at h
  obtain ⟨statements, hstatements, h⟩ := h
  rw [Effect.perform_printLine_bind, Effect.perform_printLine_bind,
    Effect.perform_ofResult_bind_eq_ok_iff] at h
  obtain ⟨model, hmodel, h⟩ := h
  rw [Effect.perform_printLine_bind, Effect.perform_printLine_bind, Effect.perform_printLine_bind,
    Effect.perform_ofResult_bind_eq_ok_iff] at h
  obtain ⟨program, hprogram, h⟩ := h
  rw [Effect.perform_printLine_bind, Effect.perform_change_bind_eq_ok_iff] at h
  obtain ⟨middle, hmiddle, h⟩ := h
  rw [Effect.perform_printLine_bind, Effect.perform_change_bind_eq_ok_iff] at h
  obtain ⟨last, hlast, h⟩ := h
  rw [Effect.perform_printLine_bind, Effect.perform_printLine_bind,
    Effect.perform_printLine_bind] at h
  have hfinal : final.directory = last := (congrArg (fun result => result.2.directory) h).symm
  have hread : DataModel.ofScript script = .ok model := by
    rw [DataModel.ofScript, hstatements]
    dsimp only
    rw [hmodel]
    rfl
  refine ⟨script, { program, semanticModel := Semantic.model model, plan := model.plan }, hscript,
    ?_, ?_⟩
  · rw [convert, hread]
    show (Spark.program .provided model).mapError _ >>= _ = _
    rw [hprogram]
    rfl
  · rw [hfinal, Directory.writeName_eq_ok hlast, Directory.writeName_eq_ok hmiddle]

/-- What a run that converts a script leaves of the files. The script is safe, and the program
is, exactly if a step of the script's place has an extension. -/
structure FileRun (input : String) (before : Directory) (run : Except ConvertError Unit × World) :
    Prop where
  names : [input, Output.program.file input, Output.model.file input].Nodup ↔
    hasExtension input.toList = true
  places : [scriptPlace input, Output.program.place input, Output.model.place input].Nodup ↔
    extensionAlong (scriptPlace input) = true
  merged : extensionAlong (scriptPlace input) = false →
    ∀ output : Output, output.place input = scriptPlace input
  frame : ∀ spot, spot ∉ [Output.program.place input, Output.model.place input] →
    run.2.directory.file? spot = before.file? spot
  kept : extensionAlong (scriptPlace input) = true →
    run.2.directory.file? (scriptPlace input) = before.file? (scriptPlace input)
  written : run.1.isOk = true → ∃ content script conversion,
    before.file? (scriptPlace input) = some content ∧ content.readText = .ok script ∧
    convert { script, session := some .provided } = .ok conversion ∧
    run.2.directory.file? (Output.model.place input) =
      some (.text conversion.semanticModel.pretty) ∧
    run.2.directory.file? (Output.program.place input) =
      some (.text (if extensionAlong (scriptPlace input) then conversion.program
        else conversion.semanticModel.pretty))

/-- A run without an output argument keeps its script and both outputs if a step of the script's
place has an extension. Otherwise all are written at one place, and the model is left. -/
theorem fileRun_convertFile (input : String) (world : World) :
    FileRun input world.directory ((convertFile input none).perform world) := by
  have hframe : ∀ spot, spot ∉ [Output.program.place input, Output.model.place input] →
      ((convertFile input none).perform world).2.directory.file? spot =
        world.directory.file? spot := by
    intro spot hspot
    obtain ⟨written, hwrote, hplaces, -⟩ := writes_convertFile input none world
    exact hwrote.file?_eq fun hmem => hspot (hplaces.subset hmem)
  refine ⟨nodup_files_iff input, nodup_places_iff input, place_eq_scriptPlace, hframe, ?_, ?_⟩
  · intro h
    exact hframe _ (List.nodup_cons.mp ((nodup_places_iff input).mpr h)).1
  · intro hok
    obtain ⟨⟨⟩, hperform⟩ := Effect.exists_perform_eq_ok hok
    obtain ⟨script, conversion, hscript, hconvert, hfinal⟩ := convertFile_eq_ok hperform
    obtain ⟨content, hcontent, htext⟩ := Directory.readText_eq_ok hscript
    refine ⟨content, script, conversion, hcontent, htext, hconvert, ?_, ?_⟩
    · rw [hfinal, Directory.file?_put]
      exact if_pos rfl
    · rw [hfinal, Directory.file?_put, Directory.file?_put]
      cases h : extensionAlong (scriptPlace input) with
      | true =>
          have hnodup := (nodup_places_iff input).mpr h
          have hapart : Output.program.place input ≠ Output.model.place input :=
            List.ne_of_not_mem_cons (List.nodup_cons.mp (List.nodup_cons.mp hnodup).2).1
          exact (if_neg hapart).trans (if_pos rfl)
      | false =>
          have hsame : Output.program.place input = Output.model.place input :=
            (place_eq_scriptPlace h _).trans (place_eq_scriptPlace h _).symm
          exact if_pos hsame

/-- A world with one script, whose extension is in capitals. -/
def capitalScript : World :=
  { directory := { files := .ofList [(["sales.QVS"], .text "LOAD a FROM b.csv;")] } }

/-- In capitals an extension is none, so the script is lost. -/
theorem capitalScript_overwritten :
    ((convertFile "sales.QVS" none).perform capitalScript).1.isOk = true ∧
      capitalScript.directory.file? ["sales.QVS"] = some (.text "LOAD a FROM b.csv;") ∧
      ∃ conversion,
        convert { script := "LOAD a FROM b.csv;", session := some .provided } = .ok conversion ∧
        ((convertFile "sales.QVS" none).perform capitalScript).2.directory.file? ["sales.QVS"] =
          some (.text conversion.semanticModel.pretty) ∧
        conversion.semanticModel.pretty ≠ "LOAD a FROM b.csv;" := by
  have hok : ((convertFile "sales.QVS" none).perform capitalScript).1.isOk = true := by
    decide +kernel
  have hfile : capitalScript.directory.file? ["sales.QVS"] = some (.text "LOAD a FROM b.csv;") :=
    rfl
  have hplace : scriptPlace "sales.QVS" = ["sales.QVS"] := by decide
  have hbare : extensionAlong (scriptPlace "sales.QVS") = false := by decide
  have hrun := fileRun_convertFile "sales.QVS" capitalScript
  obtain ⟨content, script, conversion, hcontent, hscript, hconvert, hmodel, -⟩ := hrun.written hok
  rw [hrun.merged hbare, hplace] at hmodel
  rw [hplace, hfile] at hcontent
  obtain rfl := Option.some.inj hcontent
  have hplain : String.ofList (plainLines "LOAD a FROM b.csv;".toList) = "LOAD a FROM b.csv;" := by
    decide +kernel
  rw [FileContent.readText, hplain] at hscript
  obtain rfl := Except.ok.inj hscript
  refine ⟨hok, hfile, conversion, hconvert, hmodel, fun hsame => ?_⟩
  -- The description of a model is an object, and a script does not start with a brace.
  obtain ⟨model, _, _, -, -, -, rfl⟩ := convert_eq_ok hconvert
  have hfirst := congrArg (fun text => text.toList.head?) hsame
  simp [Semantic.model, Json.Value.pretty, Json.write, Json.writeMembers,
    Json.Layout.enclose] at hfirst

end Command

end QlikMigration
