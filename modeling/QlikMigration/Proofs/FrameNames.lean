import QlikMigration.Proofs.Conditions
import QlikMigration.Proofs.Outputs

/-!
# Which tables share a data frame

A table's data frame is a variable named after the table: in lower case, with an
underscore for every character that is no letter or digit of ASCII, and with one
more underscore before a leading digit. Tables are told apart by their names as
they are, so two tables can have one frame. This module says exactly when: their
names have to agree character by character up to case and up to characters that
become underscores, or one of them has to begin with a digit and the other with
such a character in addition.

A block assigns the frame of its own table and, for an inline table, two helpers
named after that frame. So the frame of another table is overwritten by a table
with the same frame, or by an inline table one of whose helpers has that name.
-/

namespace QlikMigration.Spark

open QlikMigration.Text QlikMigration.Script

/-! ## Characters -/

/-- Two characters with the same mark in the name of a frame: one letter or digit of ASCII,
in either case, or two characters that are neither. -/
def SameMark (c d : Char) : Prop :=
  c.isAlphanum = d.isAlphanum ∧ (c.isAlphanum = true → c.toLower = d.toLower)

instance (c d : Char) : Decidable (SameMark c d) :=
  inferInstanceAs (Decidable (_ ∧ _))

/-- Lower case changes ASCII characters only, and letters to letters. -/
theorem isAlphanum_toLower (c : Char) :
    c.toLower.isAlphanum = c.isAlphanum ∧ c.toLower.isDigit = c.isDigit := by
  have hall : ∀ n < 128, (Char.ofNat n).toLower.isAlphanum = (Char.ofNat n).isAlphanum ∧
      (Char.ofNat n).toLower.isDigit = (Char.ofNat n).isDigit := by decide
  by_cases hascii : c.toNat < 128
  · have hc := hall c.toNat hascii
    rwa [Char.ofNat_toNat] at hc
  · have hsame : c.toLower = c := by
      refine dif_neg fun hupper => hascii ?_
      exact Nat.lt_of_le_of_lt (UInt32.le_iff_toNat_le.mp hupper.2) (by decide)
    rw [hsame]
    exact ⟨rfl, rfl⟩

theorem frameChar_of_isAlphanum {c : Char} (h : c.isAlphanum = true) : frameChar c = c.toLower := by
  rw [frameChar, h]
  rfl

theorem frameChar_of_not_isAlphanum {c : Char} (h : c.isAlphanum = false) : frameChar c = '_' := by
  rw [frameChar, h, Bool.false_or]
  split
  · next hmark =>
    obtain rfl := eq_of_beq hmark
    rfl
  · rfl

theorem isAlphanum_frameChar (c : Char) : (frameChar c).isAlphanum = c.isAlphanum := by
  cases hc : c.isAlphanum with
  | true => rw [frameChar_of_isAlphanum hc, (isAlphanum_toLower c).1, hc]
  | false =>
      rw [frameChar_of_not_isAlphanum hc]
      decide

theorem isDigit_frameChar (c : Char) : (frameChar c).isDigit = c.isDigit := by
  cases hc : c.isAlphanum with
  | true => rw [frameChar_of_isAlphanum hc, (isAlphanum_toLower c).2]
  | false =>
      have hdigit : c.isDigit = false := (Bool.or_eq_false_iff.mp hc).2
      rw [frameChar_of_not_isAlphanum hc, hdigit]
      decide

theorem frameChar_eq_underscore_iff {c : Char} : frameChar c = '_' ↔ c.isAlphanum = false := by
  refine ⟨fun h => ?_, frameChar_of_not_isAlphanum⟩
  rw [← isAlphanum_frameChar, h]
  decide

theorem frameChar_eq_iff {c d : Char} : frameChar c = frameChar d ↔ SameMark c d := by
  rw [SameMark]
  constructor
  · intro h
    have hsame : c.isAlphanum = d.isAlphanum := by
      rw [← isAlphanum_frameChar, h, isAlphanum_frameChar]
    refine ⟨hsame, fun hc => ?_⟩
    rw [← frameChar_of_isAlphanum hc, h, frameChar_of_isAlphanum (hsame ▸ hc)]
  · rintro ⟨hsame, hlower⟩
    cases hc : c.isAlphanum with
    | true =>
        rw [frameChar_of_isAlphanum hc, frameChar_of_isAlphanum (hsame ▸ hc), hlower hc]
    | false => rw [frameChar_of_not_isAlphanum hc, frameChar_of_not_isAlphanum (hsame ▸ hc)]

/-! ## Names -/

/-- Whether a text begins with a digit. -/
def leadsDigit : List Char → Bool
  | [] => false
  | c :: _ => c.isDigit

/-- A text with an underscore before a leading digit. -/
def guardDigit (cs : List Char) : List Char :=
  if leadsDigit cs then '_' :: cs else cs

theorem toList_frameName (table : String) :
    (frameName table).toList = ['d', 'f', '_'] ++ guardDigit (table.toList.map frameChar) := by
  rw [frameName, String.toList_ofList]
  cases table.toList.map frameChar with
  | nil => rfl
  | cons c rest => rfl

theorem leadsDigit_map_frameChar (cs : List Char) :
    leadsDigit (cs.map frameChar) = leadsDigit cs := by
  cases cs with
  | nil => rfl
  | cons c rest => exact isDigit_frameChar c

/-- Two texts with their guards are the same if they are, or if one is the other with its guard. -/
theorem guardDigit_eq_iff {cs ds : List Char} :
    guardDigit cs = guardDigit ds ↔
      cs = ds ∨ (leadsDigit cs = true ∧ ds = '_' :: cs) ∨
        (leadsDigit ds = true ∧ cs = '_' :: ds) := by
  unfold guardDigit
  cases hcs : leadsDigit cs <;> cases hds : leadsDigit ds
  · simp
  · -- A text that begins with the guard itself does not begin with a digit.
    have hne : cs ≠ ds := by
      rintro rfl
      exact Bool.false_ne_true (hcs.symm.trans hds)
    simp [hne]
  · have hne : cs ≠ ds := by
      rintro rfl
      exact Bool.false_ne_true (hds.symm.trans hcs)
    simp [hne, eq_comm]
  · have hleft : ds ≠ '_' :: cs := by
      rintro rfl
      exact absurd (show '_'.isDigit = true from hds) (by decide)
    have hright : cs ≠ '_' :: ds := by
      rintro rfl
      exact absurd (show '_'.isDigit = true from hcs) (by decide)
    simp [hleft, hright]

/-- The second name has the marks of the first one, which begins with a digit, after a
character that is neither letter nor digit. -/
def Underscored (name other : List Char) : Prop :=
  leadsDigit name = true ∧
    ∃ mark rest, other = mark :: rest ∧ mark.isAlphanum = false ∧ List.Forall₂ SameMark name rest

/-- Two names that give the same frame. -/
def Clash (name other : List Char) : Prop :=
  List.Forall₂ SameMark name other ∨ Underscored name other ∨ Underscored other name

theorem map_frameChar_eq_iff {cs ds : List Char} :
    cs.map frameChar = ds.map frameChar ↔ List.Forall₂ SameMark cs ds := by
  rw [← List.forall₂_eq_eq_eq, List.forall₂_map_left_iff, List.forall₂_map_right_iff]
  simp only [frameChar_eq_iff]

theorem map_frameChar_eq_underscore_cons_iff {cs ds : List Char} :
    ds.map frameChar = '_' :: cs.map frameChar ↔
      ∃ mark rest, ds = mark :: rest ∧ mark.isAlphanum = false ∧ List.Forall₂ SameMark cs rest := by
  rw [List.map_eq_cons_iff]
  constructor
  · rintro ⟨mark, rest, rfl, hmark, hrest⟩
    exact ⟨mark, rest, rfl, frameChar_eq_underscore_iff.mp hmark,
      map_frameChar_eq_iff.mp hrest.symm⟩
  · rintro ⟨mark, rest, rfl, hmark, hrest⟩
    exact ⟨mark, rest, rfl, frameChar_eq_underscore_iff.mpr hmark,
      (map_frameChar_eq_iff.mpr hrest).symm⟩

/-- Two tables have the same frame exactly if their names clash. -/
theorem frameName_eq_iff {name other : String} :
    frameName name = frameName other ↔ Clash name.toList other.toList := by
  rw [← String.toList_inj, toList_frameName, toList_frameName, List.append_cancel_left_eq,
    guardDigit_eq_iff, leadsDigit_map_frameChar, leadsDigit_map_frameChar, map_frameChar_eq_iff,
    map_frameChar_eq_underscore_cons_iff, map_frameChar_eq_underscore_cons_iff]
  rfl

/-- A name of letters and digits has the same frame as another exactly if the two are the same
in lower case, unless it begins with a digit. -/
theorem frameName_eq_iff_of_isAlphanum {name other : String}
    (hname : ∀ c ∈ name.toList, c.isAlphanum = true) (hdigit : leadsDigit name.toList = false) :
    frameName name = frameName other ↔
      name.toList.map Char.toLower = other.toList.map Char.toLower := by
  have hmark : ∀ c d : Char, c.isAlphanum = true → (SameMark c d ↔ c.toLower = d.toLower) := by
    intro c d hc
    refine ⟨fun h => h.2 hc, fun h => ⟨?_, fun _ => h⟩⟩
    rw [← (isAlphanum_toLower c).1, h, (isAlphanum_toLower d).1]
  have hleft : ¬ Underscored name.toList other.toList := fun h => by
    rw [Underscored, hdigit] at h
    exact Bool.false_ne_true h.1
  have hright : ¬ Underscored other.toList name.toList := by
    rintro ⟨-, mark, rest, hcons, hplain, -⟩
    have hmem := hname mark (hcons ▸ List.mem_cons_self)
    rw [hplain] at hmem
    exact Bool.false_ne_true hmem
  rw [frameName_eq_iff, Clash, or_iff_left (not_or.mpr ⟨hleft, hright⟩), ← List.forall₂_eq_eq_eq,
    List.forall₂_map_left_iff, List.forall₂_map_right_iff, List.forall₂_iff_get,
    List.forall₂_iff_get]
  refine and_congr_right fun _ => forall_congr' fun i => forall₂_congr fun hi hj => ?_
  exact hmark _ _ (hname _ (List.get_mem _ _))

/-- The frame of a longer name is the longer frame, if what is added has the form of a frame
and does not begin with a digit. -/
theorem frameName_append (name ending : String)
    (hending : ending.toList.map frameChar = ending.toList)
    (hdigit : leadsDigit ending.toList = false) :
    frameName (name ++ ending) = frameName name ++ ending := by
  have hguard : ∀ cs, guardDigit (cs ++ ending.toList) = guardDigit cs ++ ending.toList := by
    intro cs
    cases cs with
    | nil =>
        rw [List.nil_append, guardDigit, hdigit]
        rfl
    | cons c rest =>
        unfold guardDigit
        cases hlead : leadsDigit (c :: rest) with
        | true => simp [show leadsDigit (c :: (rest ++ ending.toList)) = true from hlead]
        | false => simp [show leadsDigit (c :: (rest ++ ending.toList)) = false from hlead]
  rw [← String.toList_inj, toList_frameName, String.toList_append, List.map_append, hending, hguard,
    String.toList_append, toList_frameName, List.append_assoc]

/-! ## What a block assigns -/

/-- The names whose frames the block of a table assigns: its own name and, for an inline
table, the names for its schema and for its rows. -/
def targets (table : Table) : List String :=
  if table.sourceType = LoadKind.inlined.word then
    [table.name ++ "_schema", table.name ++ "_data", table.name]
  else [table.name]

theorem name_mem_targets (table : Table) : table.name ∈ targets table := by
  unfold targets
  split <;> simp

theorem assigned_append {target rest : String} (htarget : target.toList.all isWord = true) :
    assigned (target ++ (" = " ++ rest)) = target := by
  have hspace : startsWord (' ' :: '=' :: ' ' :: rest.toList) = false :=
    startsWord_of_mem_head? (by decide) rfl
  have hchars : (target ++ (" = " ++ rest)).toList =
      target.toList ++ ' ' :: '=' :: ' ' :: rest.toList := by
    simp
  rw [assigned, hchars, (wordRun_append htarget hspace).1, String.ofList_toList]

theorem assigned_frame (name rest : String) :
    assigned (frameName name ++ (" = " ++ rest)) = frameName name :=
  assigned_append (all_isWord_frameName name)

/-- The lines that set up the frame of a table assign the frames of its targets. -/
theorem map_assigned_sourceLines {table : Table} {kind : LoadKind} {lines : List String}
    (hkind : table.sourceType = kind.word) (hmapping : kind ≠ .mapping)
    (h : sourceLines table (frameName table.name) = .ok lines) :
    lines.map assigned = (targets table).map frameName := by
  unfold sourceLines at h
  cases kind with
  | external =>
      rw [hkind] at h
      cases h
      rw [targets, hkind, if_neg (by decide)]
      simp [externalLine, String.append_assoc, assigned_frame]
  | resident =>
      rw [hkind] at h
      cases hpath : table.sourcePath with
      | none => simp [residentLine, hpath, LoadKind.word, Except.map] at h
      | some source =>
          rw [residentLine, hpath] at h
          cases h
          rw [targets, hkind, if_neg (by decide)]
          simp [String.append_assoc, assigned_frame]
  | inlined =>
      rw [hkind] at h
      cases h
      have hschema := frameName_append table.name "_schema" (by decide) (by decide)
      have hdata := frameName_append table.name "_data" (by decide) (by decide)
      have hsplit : "_schema = StructType([" = "_schema" ++ (" = " ++ "StructType([") ∧
          "_data = []  # Add inline data here" =
            "_data" ++ (" = " ++ "[]  # Add inline data here") ∧
          " = spark.createDataFrame(" = " = " ++ "spark.createDataFrame(" := by decide
      -- Each line is a frame, an equals sign and the rest of the line.
      rw [targets, if_pos hkind, inlineLines, hsplit.1, hsplit.2.1, hsplit.2.2]
      simp only [List.map_cons, List.map_nil, ← String.append_assoc, ← hschema, ← hdata]
      simp only [String.append_assoc, assigned_frame]
  | mapping => exact absurd rfl hmapping

theorem assigned_comment (text : String) : assigned ("# Table: " ++ text) = "" := by
  have hrun : wordRun ("# Table: " ++ text).toList = [] := by
    rw [String.toList_append]
    exact List.takeWhile_cons_of_neg (by decide)
  rw [assigned, hrun]

/-- Apart from its comment, the block of a table assigns the frames of its targets. -/
theorem mem_map_assigned_tableBlock {table : Table} {kind : LoadKind} {source : String}
    (hkind : table.sourceType = kind.word) (hmapping : kind ≠ .mapping)
    (hsteps : ∀ step ∈ table.steps, Belongs table.name source step.action) {block : List String}
    (hblock : tableBlock table = .ok block) {name : String} :
    frameName name ∈ block.map assigned ↔ frameName name ∈ (targets table).map frameName := by
  obtain ⟨lines, hsource, rfl⟩ := tableBlock_eq_ok hblock
  have hcomment : frameName name ≠ assigned ("# Table: " ++ table.name) := by
    rw [assigned_comment, ← String.toList_inj.ne, toList_frameName]
    exact List.cons_ne_nil _ _
  rw [List.map_append, List.map_cons, List.mem_append, List.mem_cons, or_iff_right hcomment,
    map_assigned_sourceLines hkind hmapping hsource]
  refine ⟨fun h => h.elim id fun hstep => ?_, Or.inl⟩
  -- Every step assigns the frame of the table, which is one of the targets.
  obtain ⟨line, hline, hassigned⟩ := List.mem_map.mp hstep
  obtain ⟨step, hmem, hlines⟩ := List.mem_flatMap.mp hline
  rw [← hassigned, (operands_of_mem_stepLines (hsteps step hmem) hlines).1]
  exact List.mem_map_of_mem (name_mem_targets table)

end QlikMigration.Spark

namespace QlikMigration

open QlikMigration.Text QlikMigration.Script

/-! ## The names of a script's tables -/

/-- A label is a word that is not empty. -/
theorem Script.word_of_loadLabel? {line name : List Char} (h : loadLabel? line = some name) :
    name ≠ [] ∧ name.all isWord = true := by
  obtain ⟨⟨found, rest⟩, hlabel, hname⟩ := Option.bind_eq_some_iff.mp h
  obtain rfl : found = name := by
    dsimp only at hname
    split at hname
    · exact Option.some.inj hname
    · cases hname
  unfold labelAt? at hlabel
  dsimp only at hlabel
  split at hlabel
  · cases hlabel
  · next hne =>
    obtain ⟨tail, -, heq⟩ := Option.map_eq_some_iff.mp hlabel
    cases heq
    exact ⟨fun hnil => hne (List.isEmpty_iff.mpr hnil), List.all_takeWhile⟩

/-- The name of a load's table is a word. -/
theorem Builder.all_isWord_nameFor (builder : Builder) {load : Load} {line : List Char}
    (h : readLine line = .ok (some (.load load))) :
    (builder.nameFor load).1.toList.all isWord = true := by
  unfold nameFor
  split
  · next label hlabel =>
    obtain ⟨join, -, rfl⟩ := exists_readJoin_of_readLine h
    obtain ⟨name, hname, rfl⟩ := Option.map_eq_some_iff.mp (Option.filter_eq_some_iff.mp hlabel).1
    rw [String.toList_ofList]
    exact (word_of_loadLabel? hname).2
  · have hdigits : ∀ count : Nat, (toString count).toList = Nat.toDigits 10 count := by simp
    rw [String.toList_append, List.all_append, hdigits]
    exact Bool.and_eq_true_iff.mpr
      ⟨by decide, List.all_eq_true.mpr fun c hc => Spark.isWord_of_mem_toDigits hc⟩

/-- A load that is read is no load of a mapping. -/
theorem Script.kind_ne_mapping_of_readLine {line : List Char} {load : Load}
    (h : readLine line = .ok (some (.load load))) : load.kind ≠ .mapping := by
  rw [(origin_of_readLine h).1, readOrigin]
  split_ifs <;>
    · intro hkind
      cases hkind

/-- A table in the model of a script has the name and the kind of a load in it. -/
theorem DataModel.exists_load_of_ofScript {script : String} {model : DataModel}
    (hmodel : DataModel.ofScript script = .ok model) {name : String} {table : Table}
    (htable : model.tables.get? name = some table) :
    name.toList.all isWord = true ∧
      ∃ kind : LoadKind, kind ≠ .mapping ∧ table.sourceType = kind.word := by
  obtain ⟨before, load, line, -, hline, rfl, hdefined⟩ :=
    DataModel.exists_line_of_get? hmodel htable
  exact ⟨before.all_isWord_nameFor hline, load.kind, kind_ne_mapping_of_readLine hline,
    Builder.sourceType_of_tableOf hdefined⟩

/-! ## Scripts -/

/-- The tables of a script are named by words, and these are all different. Their frames are
different exactly if no two of the names clash. The block of a table assigns the frame of a
table exactly if the name of the latter clashes with the name of the former or, for an inline
table, with the name for its schema or for its rows. -/
theorem Spark.frames_of_script {script : String} {model : DataModel}
    (hmodel : DataModel.ofScript script = .ok model) :
    (∀ name ∈ model.tables.names, name ≠ "" ∧ name.toList.all isWord = true) ∧
      model.tables.names.Nodup ∧
      ((model.tables.names.map frameName).Nodup ↔
        model.tables.names.Pairwise fun name other => ¬ Clash name.toList other.toList) ∧
      ∀ name table, model.tables.get? name = some table →
        ∃ block, tableBlock table = .ok block ∧
          ∀ other, frameName other ∈ block.map assigned ↔
            ∃ target ∈ targets table, Clash target.toList other.toList := by
  obtain ⟨statements, -, hbuilt⟩ := DataModel.ofScript_eq_ok hmodel
  have hnonempty := DataModel.empty_not_mem_names hbuilt
  refine ⟨fun name hname => ?_, model.tables.nodup_names, ?_, fun name table htable => ?_⟩
  · obtain ⟨table, htable⟩ := Catalog.exists_get?_of_mem_names hname
    refine ⟨?_, (DataModel.exists_load_of_ofScript hmodel htable).1⟩
    rintro rfl
    exact hnonempty hname
  · rw [List.Nodup, List.pairwise_map]
    simp only [ne_eq, frameName_eq_iff]
  · obtain ⟨-, kind, hmapping, hkind⟩ := DataModel.exists_load_of_ofScript hmodel htable
    obtain ⟨rfl, hsteps⟩ := belongs_of_ofScript hmodel htable
    obtain ⟨block, hblock⟩ :=
      exists_tableBlock (DataModel.sourced_of_ofStatements hbuilt _ table htable)
    refine ⟨block, hblock, fun other => ?_⟩
    rw [mem_map_assigned_tableBlock hkind hmapping hsteps hblock, List.mem_map]
    simp only [frameName_eq_iff]

/-- Two tables whose names differ in case only. -/
def caseScript : String :=
  "T: LOAD * FROM t.csv;\nt: LOAD * FROM u.csv;"

/-- The block of the second table assigns the frame of the first one anew. -/
theorem Spark.frames_of_caseScript :
    ∃ model, DataModel.ofScript caseScript = .ok model ∧ model.executionOrder = ["T", "t"] ∧
      ¬ (model.tables.names.map frameName).Nodup ∧
      ∃ table block, model.tables.get? "t" = some table ∧ tableBlock table = .ok block ∧
        frameName "T" ∈ block.map assigned := by
  have hread : readScript caseScript =
      .ok [loadAll .external "T" "t.csv", loadAll .external "t" "u.csv"] := by decide +kernel
  obtain ⟨model, hbuilt, horder, hnames⟩ : ∃ model, DataModel.ofStatements
      [loadAll .external "T" "t.csv", loadAll .external "t" "u.csv"] = .ok model ∧
        model.executionOrder = ["T", "t"] ∧ model.tables.names = ["T", "t"] :=
    ⟨_, rfl, by decide +kernel, by decide +kernel⟩
  have hmodel := DataModel.ofScript_of_readScript hread hbuilt
  obtain ⟨-, -, hframes, hblocks⟩ := frames_of_script hmodel
  obtain ⟨table, htable⟩ := Catalog.exists_get?_of_mem_names (show "t" ∈ model.tables.names by
    rw [hnames]
    decide)
  obtain ⟨block, hblock, hassigned⟩ := hblocks "t" table htable
  refine ⟨model, hmodel, horder, fun hnodup => ?_, table, block, htable, hblock,
    (hassigned "T").mpr ⟨table.name, name_mem_targets table, ?_⟩⟩
  · rw [hframes, hnames] at hnodup
    exact List.rel_of_pairwise_cons hnodup List.mem_cons_self (Or.inl (.cons (by decide) .nil))
  · rw [(belongs_of_ofScript hmodel htable).1]
    exact Or.inl (.cons (by decide) .nil)

end QlikMigration
