import Mathlib.Data.List.Infix
import Mathlib.Tactic.SplitIfs
import QlikMigration.Semantic
import QlikMigration.Spark.Program

/-!
# Which format a path is taken for

Three places look at the path of a file to tell its format. The semantic model
compares the ending in any case. The program reads a table by the ending as it
is spelled, and as text if it knows no ending. A mapping takes its source for a
file if a known ending occurs anywhere in the path, and the endings of
spreadsheets are not among those.

All three are told here by one search for an ending, so that a path decides
exactly where they part: the semantic model from the program where an ending has
capital letters, and mappings from tables where the path is that of a
spreadsheet or has no known ending in it.
-/

namespace QlikMigration.Text

/-! ## Parts of a text -/

theorem contains_iff {part cs : List Char} : contains part cs = true ↔ part <:+: cs := by
  induction cs with
  | nil => rw [contains, List.isEmpty_iff, List.infix_nil]
  | cons c cs ih =>
      rw [contains, Bool.or_eq_true, List.isPrefixOf_iff_prefix, ih, List.infix_cons_iff]

/-- A text in lower case ends as it is spelled in some case at its end. -/
theorem suffix_lowerAscii_iff {part cs : List Char} :
    part <:+ lowerAscii cs ↔ ∃ tail, tail <:+ cs ∧ lowerAscii tail = part := by
  constructor
  · rintro ⟨front, hcut⟩
    obtain ⟨start, tail, rfl, -, htail⟩ := List.append_eq_map_iff.mp hcut
    exact ⟨tail, List.suffix_append start tail, htail⟩
  · rintro ⟨tail, htail, rfl⟩
    exact htail.map Char.toLower

end QlikMigration.Text

namespace QlikMigration.Spark

open QlikMigration.Text

/-! ## Endings -/

namespace FileReader

/-- The endings of the files that a reader is meant for. -/
def endings : FileReader → List String
  | .csv => [".csv", ".txt"]
  | .parquet => [".parquet"]
  | .json => [".json"]
  | .excel => [".xlsx", ".xls"]

/-- The name of a reader's format in a semantic model. -/
def format : FileReader → String
  | .csv => "csv"
  | .parquet => "parquet"
  | .json => "json"
  | .excel => "excel"

/-- A path has an ending of a reader as it is spelled. -/
def Ends (reader : FileReader) (path : String) : Prop :=
  ∃ ending ∈ reader.endings, ending.toList <:+ path.toList

/-- A path has an ending of a reader in some case. -/
def EndsInAnyCase (reader : FileReader) (path : String) : Prop :=
  ∃ ending ∈ reader.endings, ∃ tail, tail <:+ path.toList ∧ lowerAscii tail = ending.toList

instance (reader : FileReader) (path : String) : Decidable (reader.Ends path) :=
  inferInstanceAs (Decidable (∃ ending ∈ reader.endings, _))

/-- A text has at most one reader's ending. -/
theorem eq_of_suffix {reader other : FileReader} {cs : List Char} {first second : String}
    (hfirst : first ∈ reader.endings) (hsecond : second ∈ other.endings)
    (hcs : first.toList <:+ cs) (hcs' : second.toList <:+ cs) : reader = other := by
  have hall : ∀ reader other : FileReader, ∀ first ∈ reader.endings, ∀ second ∈ other.endings,
      first.toList <:+ second.toList → reader = other := by
    intro reader other
    cases reader <;> cases other <;> decide
  rcases List.suffix_or_suffix_of_suffix hcs hcs' with h | h
  · exact hall reader other first hfirst second hsecond h
  · exact (hall other reader second hsecond first hfirst h).symm

theorem format_inj {reader other : FileReader} (h : reader.format = other.format) :
    reader = other := by
  revert h
  cases reader <;> cases other <;> decide

theorem format_ne_unknown (reader : FileReader) : reader.format ≠ "unknown" := by
  cases reader <;> decide

/-- The expression of a reader up to the path. -/
def call : FileReader → String
  | .csv => "spark.read.csv("
  | .parquet => "spark.read.parquet("
  | .json => "spark.read.json("
  | .excel => "spark.read.format('excel').load("

/-- The expression of a reader behind the path. -/
def callEnd : FileReader → String
  | .csv => ", header=True, inferSchema=True)"
  | .parquet | .json | .excel => ")"

theorem expression_eq (reader : FileReader) (path : String) :
    reader.expression path = reader.call ++ quoted path ++ reader.callEnd := by
  cases reader <;> rfl

theorem eq_of_call_isPrefix {reader other : FileReader}
    (h : reader.call.toList <+: other.call.toList) :
    reader = other := by
  revert h
  cases reader <;> cases other <;> decide

/-- The expression that reads a file tells by which reader. -/
theorem expression_inj {reader other : FileReader} {path : String} :
    reader.expression path = other.expression path ↔ reader = other := by
  refine ⟨fun h => ?_, fun h => h ▸ rfl⟩
  have hcalled : ∀ reader : FileReader, reader.call.toList <+: (reader.expression path).toList := by
    intro reader
    rw [expression_eq, String.append_assoc, String.toList_append]
    exact List.prefix_append _ _
  rcases List.prefix_or_prefix_of_prefix (h ▸ hcalled reader) (hcalled other) with hstart | hstart
  · exact eq_of_call_isPrefix hstart
  · exact (eq_of_call_isPrefix hstart).symm

theorem expression_ne_frameName (reader : FileReader) (path table : String) :
    reader.expression path ≠ frameName table := by
  intro h
  rw [expression_eq, frameName, ← String.toList_inj, String.toList_ofList, String.append_assoc,
    String.toList_append] at h
  have hhead : reader.call.toList.head? = some 's' := by cases reader <;> decide
  have hcalled := congrArg List.head? h
  rw [List.head?_append, hhead] at hcalled
  exact absurd hcalled (by simp)

end FileReader

/-- The reader whose ending a text has. -/
def readerFor? (cs : List Char) : Option FileReader :=
  [FileReader.csv, .parquet, .json, .excel].find? fun reader =>
    reader.endings.any fun ending => ending.toList.isSuffixOf cs

/-- The search as a chain of tests. -/
theorem readerFor?_eq (cs : List Char) :
    readerFor? cs =
      if ".csv".toList.isSuffixOf cs || ".txt".toList.isSuffixOf cs then some .csv
      else if ".parquet".toList.isSuffixOf cs then some .parquet
      else if ".json".toList.isSuffixOf cs then some .json
      else if ".xlsx".toList.isSuffixOf cs || ".xls".toList.isSuffixOf cs then some .excel
      else none := by
  simp only [readerFor?, FileReader.endings, List.find?_cons, List.any_cons, List.any_nil,
    Bool.or_false, List.find?_nil]
  cases ".csv".toList.isSuffixOf cs || ".txt".toList.isSuffixOf cs <;>
    cases ".parquet".toList.isSuffixOf cs <;> cases ".json".toList.isSuffixOf cs <;>
    cases ".xlsx".toList.isSuffixOf cs || ".xls".toList.isSuffixOf cs <;> rfl

theorem readerFor?_eq_some_iff {cs : List Char} {reader : FileReader} :
    readerFor? cs = some reader ↔ ∃ ending ∈ reader.endings, ending.toList <:+ cs := by
  constructor
  · intro h
    have hany := List.find?_some h
    obtain ⟨ending, hending, hends⟩ := List.any_eq_true.mp hany
    exact ⟨ending, hending, List.isSuffixOf_iff_suffix.mp hends⟩
  · rintro ⟨ending, hending, hends⟩
    have hany : reader.endings.any (fun ending => ending.toList.isSuffixOf cs) = true :=
      List.any_eq_true.mpr ⟨ending, hending, List.isSuffixOf_iff_suffix.mpr hends⟩
    cases hfound : readerFor? cs with
    | none =>
        have hnone := List.find?_eq_none.mp hfound reader (by cases reader <;> decide)
        exact absurd hany hnone
    | some other =>
        have hother := List.find?_some hfound
        obtain ⟨last, hlast, hlastEnds⟩ := List.any_eq_true.mp hother
        rw [FileReader.eq_of_suffix hlast hending (List.isSuffixOf_iff_suffix.mp hlastEnds) hends]

theorem readerFor?_toList_eq_some_iff {path : String} {reader : FileReader} :
    readerFor? path.toList = some reader ↔ reader.Ends path :=
  readerFor?_eq_some_iff

theorem readerFor?_lowerAscii_eq_some_iff {path : String} {reader : FileReader} :
    readerFor? (lowerAscii path.toList) = some reader ↔ reader.EndsInAnyCase path := by
  rw [readerFor?_eq_some_iff]
  simp only [suffix_lowerAscii_iff]
  rfl

/-! ## The three places -/

theorem tableReader_eq (path : String) :
    tableReader path = (readerFor? path.toList).getD .csv := by
  unfold tableReader pathEndsWith
  rw [readerFor?_eq]
  split_ifs <;> rfl

/-- A table is read by the reader whose ending its path has, or else as text. -/
theorem tableReader_eq_iff {path : String} {reader : FileReader} :
    tableReader path = reader ↔
      reader.Ends path ∨ reader = .csv ∧ ∀ other : FileReader, ¬ other.Ends path := by
  rw [tableReader_eq]
  simp only [← readerFor?_toList_eq_some_iff]
  cases readerFor? path.toList with
  | none => simp [eq_comm]
  | some found => simp [eq_comm]

/-- The format of a path is that of the reader whose ending it has in any case. -/
theorem fileFormat_eq (path : String) :
    Semantic.fileFormat (some path) =
      (readerFor? (lowerAscii path.toList)).elim "unknown" FileReader.format := by
  unfold Semantic.fileFormat Semantic.hasEnding
  rw [readerFor?_eq, Option.getD_some]
  dsimp only
  split_ifs <;> rfl

theorem fileFormat_eq_iff {path : String} {reader : FileReader} :
    Semantic.fileFormat (some path) = reader.format ↔ reader.EndsInAnyCase path := by
  rw [fileFormat_eq, ← readerFor?_lowerAscii_eq_some_iff]
  cases readerFor? (lowerAscii path.toList) with
  | none => simpa using reader.format_ne_unknown.symm
  | some found => exact ⟨fun h => congrArg some (FileReader.format_inj h), fun h => by cases h; rfl⟩

/-- A source has an ending somewhere in it by which a mapping takes it for a file. -/
def NamesFile (source : String) : Prop :=
  ∃ reader : FileReader, reader ≠ .excel ∧
    ∃ ending ∈ reader.endings, ending.toList <:+: source.toList

theorem namesFile_iff {source : String} :
    NamesFile source ↔ [".csv", ".txt", ".parquet", ".json"].any (pathContains source) = true := by
  simp only [List.any_eq_true, pathContains, contains_iff]
  constructor
  · rintro ⟨reader, hreader, ending, hending, hpart⟩
    refine ⟨ending, ?_, hpart⟩
    cases reader <;> simp_all [FileReader.endings]
    rcases hending with rfl | rfl <;> simp
  · rintro ⟨ending, hending, hpart⟩
    simp only [List.mem_cons, List.not_mem_nil, or_false] at hending
    rcases hending with rfl | rfl | rfl | rfl
    · exact ⟨.csv, by decide, _, by decide, hpart⟩
    · exact ⟨.csv, by decide, _, by decide, hpart⟩
    · exact ⟨.parquet, by decide, _, by decide, hpart⟩
    · exact ⟨.json, by decide, _, by decide, hpart⟩

theorem mappingReader?_eq (source : String) :
    mappingReader? source =
      if [".csv", ".txt", ".parquet", ".json"].any (pathContains source) then
        some (((readerFor? source.toList).filter (· != .excel)).getD .csv)
      else none := by
  unfold mappingReader? pathEndsWith
  rw [readerFor?_eq]
  split_ifs <;> rfl

/-- A mapping reads its source by the reader whose ending it has, or else as text. -/
theorem mappingReader?_eq_some_iff {source : String} {reader : FileReader} :
    mappingReader? source = some reader ↔
      NamesFile source ∧ (reader ≠ .excel ∧ reader.Ends source ∨
        reader = .csv ∧ ∀ other : FileReader, other ≠ .excel → ¬ other.Ends source) := by
  rw [mappingReader?_eq, namesFile_iff, Option.ite_none_right_eq_some, Option.some_inj]
  refine and_congr_right fun _ => ?_
  simp only [← readerFor?_toList_eq_some_iff]
  cases readerFor? source.toList with
  | none => simp [eq_comm]
  | some found =>
      have hsheet : (∀ other : FileReader, other ≠ .excel → ¬ some found = some other) ↔
          found = .excel := by
        constructor
        · intro h
          by_contra hne
          exact h found hne rfl
        · rintro rfl other hother h
          exact hother (Option.some.inj h).symm
      rw [hsheet]
      cases found <;> cases reader <;> decide

theorem mappingReader?_eq_none_iff {source : String} :
    mappingReader? source = none ↔ ¬ NamesFile source := by
  rw [mappingReader?_eq, namesFile_iff]
  split_ifs with h <;> simp [h]

/-- A mapping reads its source as a table reads the same path exactly if it takes the source for a
file, and this is no spreadsheet. -/
theorem mappingReader?_eq_tableReader_iff {path : String} :
    mappingReader? path = some (tableReader path) ↔
      NamesFile path ∧ ¬ FileReader.excel.Ends path := by
  rw [mappingReader?_eq, namesFile_iff, Option.ite_none_right_eq_some, Option.some_inj,
    tableReader_eq, ← readerFor?_toList_eq_some_iff]
  refine and_congr_right fun _ => ?_
  cases readerFor? path.toList with
  | none => simp
  | some found => cases found <;> decide

namespace FileReader

/-- The endings are spelled in lower case. -/
theorem Ends.inAnyCase {reader : FileReader} {path : String} (h : reader.Ends path) :
    reader.EndsInAnyCase path := by
  obtain ⟨ending, hending, hsuffix⟩ := h
  have hlower : ∀ reader : FileReader, ∀ ending ∈ reader.endings,
      lowerAscii ending.toList = ending.toList := by
    intro reader
    cases reader <;> decide
  exact ⟨ending, hending, ending.toList, hsuffix, hlower reader ending hending⟩

end FileReader

/-! ## Lines -/

section Lines

variable {table : Table} {path : String} {reader : FileReader}

theorem externalLine_eq (hpath : table.sourcePath = some path) (hne : path ≠ "") (frame : String) :
    externalLine table frame = frame ++ " = " ++ (tableReader path).expression path := by
  have hkept : (path == "") = false := beq_eq_false_iff_ne.mpr hne
  simp only [externalLine, hpath, hkept, Bool.false_eq_true, if_false]

theorem externalLine_eq_iff (hpath : table.sourcePath = some path) (hne : path ≠ "")
    (frame : String) :
    externalLine table frame = frame ++ " = " ++ reader.expression path ↔
      tableReader path = reader := by
  rw [externalLine_eq hpath hne, String.append_right_inj, FileReader.expression_inj]

theorem mappingSourceLine_eq_iff (path frame : String) :
    mappingSourceLine path frame = frame ++ " = " ++ reader.expression path ↔
      mappingReader? path = some reader := by
  rw [mappingSourceLine, String.append_right_inj]
  cases mappingReader? path with
  | none => simpa using (reader.expression_ne_frameName path path).symm
  | some found => simp [FileReader.expression_inj]

theorem mappingSourceLine_eq_frame_iff (path frame : String) :
    mappingSourceLine path frame = frame ++ " = " ++ frameName path ↔
      mappingReader? path = none := by
  rw [mappingSourceLine, String.append_right_inj]
  cases mappingReader? path with
  | none => simp
  | some found => simpa using found.expression_ne_frameName path path

end Lines

/-- What the three places make of a path: the format in the semantic model, the line that reads
the path for a table, and the line of a mapping with the path as its source. -/
structure FormatChoice (table : Table) (path frame : String) : Prop where
  described : ∀ reader : FileReader,
    Semantic.fileFormat (some path) = reader.format ↔ reader.EndsInAnyCase path
  read : ∀ reader : FileReader,
    externalLine table frame = frame ++ " = " ++ reader.expression path ↔
      reader.Ends path ∨ reader = .csv ∧ ∀ other : FileReader, ¬ other.Ends path
  mapped : ∀ reader : FileReader,
    mappingSourceLine path frame = frame ++ " = " ++ reader.expression path ↔
      NamesFile path ∧ (reader ≠ .excel ∧ reader.Ends path ∨
        reader = .csv ∧ ∀ other : FileReader, other ≠ .excel → ¬ other.Ends path)
  /-- A mapping that does not take the path for a file reads a frame of that name. -/
  taken : mappingSourceLine path frame = frame ++ " = " ++ frameName path ↔ ¬ NamesFile path
  /-- The semantic model and the program agree on a format exactly if the path does not have an
  ending of that format in capital letters. -/
  agree : ∀ reader : FileReader, reader ≠ .csv →
    ((Semantic.fileFormat (some path) = reader.format ↔
        externalLine table frame = frame ++ " = " ++ reader.expression path) ↔
      (reader.EndsInAnyCase path → reader.Ends path))
  /-- A mapping reads the path as a table does exactly if a known ending occurs in it and it is
  not the path of a spreadsheet. -/
  alike : mappingSourceLine path frame = externalLine table frame ↔
    NamesFile path ∧ ¬ FileReader.excel.Ends path

/-- The three places choose a format by three different tests of the path. -/
theorem formatChoice_of_path {table : Table} {path : String}
    (hpath : table.sourcePath = some path) (hne : path ≠ "") (frame : String) :
    FormatChoice table path frame where
  described _ := fileFormat_eq_iff
  read _ := (externalLine_eq_iff hpath hne frame).trans tableReader_eq_iff
  mapped _ := (mappingSourceLine_eq_iff path frame).trans mappingReader?_eq_some_iff
  taken := (mappingSourceLine_eq_frame_iff path frame).trans mappingReader?_eq_none_iff
  agree reader hreader := by
    rw [fileFormat_eq_iff, externalLine_eq_iff hpath hne, tableReader_eq_iff,
      or_iff_left fun h => hreader h.1]
    exact ⟨Iff.mp, fun h => ⟨h, FileReader.Ends.inAnyCase⟩⟩
  alike := by
    rw [externalLine_eq hpath hne, mappingSourceLine_eq_iff, mappingReader?_eq_tableReader_iff]

/-- A spreadsheet is read from its file by a table and taken for a frame by a mapping; a file
whose ending is in capital letters is read as text and described by that ending. -/
theorem formatChoice_of_spreadsheet :
    FormatChoice { name := "R", sourcePath := some "rates.xlsx" } "rates.xlsx" "df" ∧
      mappingSourceLine "rates.xlsx" "df" ≠
        externalLine { name := "R", sourcePath := some "rates.xlsx" } "df" ∧
      Semantic.fileFormat (some "A.PARQUET") = "parquet" ∧
      externalLine { name := "A", sourcePath := some "A.PARQUET" } "df" ≠
        "df = " ++ FileReader.parquet.expression "A.PARQUET" := by
  have hsheet : FormatChoice { name := "R", sourcePath := some "rates.xlsx" } "rates.xlsx" "df" :=
    formatChoice_of_path rfl (by decide) "df"
  have hcapital : FormatChoice { name := "A", sourcePath := some "A.PARQUET" } "A.PARQUET" "df" :=
    formatChoice_of_path rfl (by decide) "df"
  have hends : FileReader.parquet.EndsInAnyCase "A.PARQUET" :=
    ⟨".parquet", by decide, ".PARQUET".toList, by decide, by decide⟩
  refine ⟨hsheet, ?_, (hcapital.described .parquet).mpr hends, ?_⟩
  · intro h
    exact (hsheet.alike.mp h).2 (by decide)
  · intro h
    rcases (hcapital.read .parquet).mp h with hspelled | ⟨hcsv, -⟩
    · exact absurd hspelled (by decide)
    · cases hcsv

end QlikMigration.Spark
