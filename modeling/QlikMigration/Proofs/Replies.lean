import QlikMigration.Json.Writer
import QlikMigration.Proofs.Consumption
import QlikMigration.Proofs.PlainText

/-!
# A document among words

A model's reply has words before and after its document. The document is cut out
from the first opening brace to the last closing one, so the words may hold the
other kind of brace, and braces inside of the document do not matter, wherever
they stand in it.

What is read then is the document itself with its pages completed. A page keeps
its own members in their order and gets an empty list for each part it lacks, at
the end. Completing a page once is enough, so it changes nothing to do it again.
-/

namespace QlikMigration.Vision

open Json (Value eq_ok_of_toOption_eq_some)

/-! ## Cutting out the document -/

theorem documentIn?_append {front document back : List Char} (hfront : '\x7b' ∉ front)
    (hback : '\x7d' ∉ back) (hopen : document.head? = some '\x7b')
    (hclose : document.getLast? = some '\x7d') :
    documentIn? (front ++ (document ++ back)) = some document := by
  have hbraces : ((front ++ (document ++ back)).contains '\x7b' &&
      (front ++ (document ++ back)).contains '\x7d') = true := by
    have hfirst := List.mem_of_mem_head? hopen
    have hlast := List.mem_of_mem_getLast? hclose
    simp [hfirst, hlast]
  have hstart : (front ++ (document ++ back)).dropWhile (· != '\x7b') = document ++ back := by
    obtain ⟨tail, rfl⟩ := List.head?_eq_some_iff.mp hopen
    have hwords : ∀ c ∈ front, (c != '\x7b') = true := by
      intro c hc
      exact bne_iff_ne.mpr fun heq => hfront (heq ▸ hc)
    rw [List.dropWhile_append_of_pos hwords]
    rfl
  have hend : Text.trimEndOf (· != '\x7d') (document ++ back) = document := by
    refine Script.trimEndOf_append_of_pos (fun c hc => ?_) fun c hc => ?_
    · exact bne_iff_ne.mpr fun heq => hback (heq ▸ hc)
    · obtain rfl : '\x7d' = c := Option.some.inj (hclose.symm.trans hc)
      rfl
  rw [documentIn?, if_pos hbraces, hstart]
  exact congrArg some hend

/-! ## Completing the pages -/

section Pages

variable {members : List (String × Value)} {page complete : Value}

theorem any_eq_isSome_member? (members : List (String × Value)) (name : String) :
    members.any (·.1 == name) = ((Value.object members).member? name).isSome := by
  rw [Value.member?, Option.isSome_map, List.isSome_find?]

theorem member?_append (front back : List (String × Value)) (name : String) :
    (Value.object (front ++ back)).member? name =
      ((Value.object front).member? name).or ((Value.object back).member? name) := by
  rw [Value.member?, List.find?_append, Option.map_or]
  rfl

/-- An empty list for each part that some members lack. -/
def lackedParts (members : List (String × Value)) (parts : List String) :
    List (String × Value) :=
  (parts.filter fun part => ((Value.object members).member? part).isNone).map fun part =>
    (part, .array [])

/-- A page is completed: its own members come first, as they are, and then an empty list for
each part that it lacks. -/
def Completes (page complete : Value) : Prop :=
  ∃ members, page = .object members ∧ complete = .object (members ++ lackedParts members pageParts)

/-- Parts are added one after the other, and none of them is another one. -/
theorem completeMembers_eq (members : List (String × Value)) {parts : List String}
    (hparts : parts.Nodup) :
    completeMembers members parts = members ++ lackedParts members parts := by
  induction parts generalizing members with
  | nil => exact (List.append_nil members).symm
  | cons part parts ih =>
      rw [List.nodup_cons] at hparts
      rw [completeMembers, any_eq_isSome_member?]
      cases hpart : (Value.object members).member? part with
      | some value =>
          rw [Option.isSome_some, if_pos rfl, ih members hparts.2, lackedParts, lackedParts,
            List.filter_cons, hpart]
          rfl
      | none =>
          have hlater : lackedParts (members ++ [(part, .array [])]) parts =
              lackedParts members parts := by
            refine congrArg (List.map _) (List.filter_congr fun other hother => ?_)
            have hne : part ≠ other := fun heq => hparts.1 (heq ▸ hother)
            have hnone : (Value.object [(part, .array [])]).member? other = none := by
              simp [Value.member?, hne]
            rw [member?_append, hnone, Option.or_none]
          rw [Option.isSome_none, if_neg Bool.false_ne_true, ih _ hparts.2, hlater, lackedParts,
            lackedParts, List.filter_cons, hpart]
          simp

/-- Members that are completed lack no part. -/
theorem lackedParts_append_lackedParts (members : List (String × Value)) (parts : List String) :
    lackedParts (members ++ lackedParts members parts) parts = [] := by
  rw [lackedParts, List.map_eq_nil_iff, List.filter_eq_nil_iff]
  intro part hpart hlacked
  rw [member?_append, Option.isNone_iff_eq_none, Option.or_eq_none_iff] at hlacked
  have hadded : (part, Value.array []) ∈ lackedParts members parts := by
    refine List.mem_map_of_mem (List.mem_filter.mpr ⟨hpart, ?_⟩)
    rw [hlacked.1]
    rfl
  have hmissing := hlacked.2
  rw [Value.member?, Option.map_eq_none_iff, List.find?_eq_none] at hmissing
  exact hmissing _ hadded (beq_self_eq_true part)

theorem nodup_pageParts : pageParts.Nodup := by
  decide

theorem exists_completes (h : page.isObject = true) :
    ∃ complete, completePage page = .ok complete ∧ Completes page complete := by
  cases page with
  | object members =>
      refine ⟨_, rfl, members, rfl, ?_⟩
      rw [completeMembers_eq members nodup_pageParts]
  | null | bool _ | int _ | real _ | text _ | array _ => cases h

theorem Completes.completePage_eq_self (h : Completes page complete) :
    completePage complete = .ok complete := by
  obtain ⟨members, -, rfl⟩ := h
  rw [completePage, completeMembers_eq _ nodup_pageParts, lackedParts_append_lackedParts,
    List.append_nil]

end Pages

/-! ## The document of a reply -/

/-- Whether a document has a list of pages that is not empty and holds objects only. -/
def hasObjectPages (document : Value) : Bool :=
  !(pagesIn document).isEmpty && (pagesIn document).all Value.isObject

/-- An analysis is a document with its pages completed. Its names are those of the document, in
the same order, and under every other name it has the same value. -/
structure Completed (document analysis : List (String × Value)) : Prop where
  names : analysis.map Prod.fst = document.map Prod.fst
  others : ∀ name, name ≠ "pages" →
    (Value.object analysis).member? name = (Value.object document).member? name
  hasPages : HasPages (.object analysis)
  pages : List.Forall₂ Completes (pagesIn (.object document)) (pagesIn (.object analysis))

section Documents

variable {document : List (String × Value)} {name : String} {value : Value} {pages : List Value}

theorem hasPages_of_pagesIn_ne_nil {analysis : Value} (h : pagesIn analysis ≠ []) :
    HasPages analysis := by
  unfold HasPages
  unfold pagesIn at h ⊢
  split at h
  · next hpages => rw [hpages]
  · exact absurd rfl h

theorem pagesIn_eq {analysis : Value} (h : analysis.member? "pages" = some (.array pages)) :
    pagesIn analysis = pages := by
  rw [pagesIn, h]

/-- Setting a member that is there leaves those before and after it. -/
theorem exists_setMember_eq (h : (Value.object document).member? name = some value) :
    ∃ front back, document = front ++ (name, value) :: back ∧
      ∀ set, Value.setMember name set document = front ++ (name, set) :: back := by
  induction document with
  | nil => cases h
  | cons member document ih =>
      by_cases hname : member.1 = name
      · have hvalue : member.2 = value := by simpa [Value.member?, hname] using h
        refine ⟨[], document, by rw [← hname, ← hvalue]; rfl, fun set => ?_⟩
        rw [Value.setMember, if_pos (beq_iff_eq.mpr hname), List.nil_append]
      · have hlater : (Value.object document).member? name = some value := by
          simpa [Value.member?, hname] using h
        obtain ⟨front, back, rfl, hset⟩ := ih hlater
        refine ⟨member :: front, back, rfl, fun set => ?_⟩
        rw [Value.setMember, if_neg (mt beq_iff_eq.mp hname), hset, List.cons_append]

theorem setMember_eq_self (h : (Value.object document).member? name = some value) :
    Value.setMember name value document = document := by
  obtain ⟨front, back, hdocument, hset⟩ := exists_setMember_eq h
  rw [hset, ← hdocument]

/-- A document is completed by completing its pages, if all of them can be. -/
theorem completeAnalysis_eq_ok {complete : List Value} (hne : pages ≠ [])
    (hpages : (Value.object document).member? "pages" = some (.array pages))
    (hcomplete : List.Forall₂ (fun page whole => completePage page = .ok whole) pages complete) :
    completeAnalysis (.object document) =
      .ok (.object (Value.setMember "pages" (.array complete) document)) := by
  obtain ⟨page, pages, rfl⟩ := List.exists_cons_of_ne_nil hne
  have hmap := Json.mapM_eq_ok_iff.mpr hcomplete
  rw [completeAnalysis, hpages]
  dsimp only
  rw [hmap]
  rfl

theorem exists_forall₂_completes (h : ∀ page ∈ pages, page.isObject = true) :
    ∃ complete, List.Forall₂ (fun page whole => completePage page = .ok whole) pages complete ∧
      List.Forall₂ Completes pages complete := by
  induction pages with
  | nil => exact ⟨[], .nil, .nil⟩
  | cons page pages ih =>
      rw [List.forall_mem_cons] at h
      obtain ⟨whole, hwhole, hcompletes⟩ := exists_completes h.1
      obtain ⟨complete, hcomplete, hall⟩ := ih h.2
      exact ⟨whole :: complete, .cons hwhole hcomplete, .cons hcompletes hall⟩

theorem forall₂_completePage_self {complete : List Value}
    (h : List.Forall₂ Completes pages complete) :
    List.Forall₂ (fun page whole => completePage page = .ok whole) complete complete := by
  induction h with
  | nil => exact .nil
  | cons hpage _ ih => exact .cons hpage.completePage_eq_self ih

/-- Completing gives the document with its pages completed, and does nothing the second time. -/
theorem exists_completed (h : hasObjectPages (.object document) = true) :
    ∃ analysis, completeAnalysis (.object document) = .ok (.object analysis) ∧
      Completed document analysis ∧
      completeAnalysis (.object analysis) = .ok (.object analysis) := by
  rw [hasObjectPages, Bool.and_eq_true, List.all_eq_true] at h
  have hne : pagesIn (.object document) ≠ [] := by simpa using h.1
  have hpages : HasPages (.object document) := hasPages_of_pagesIn_ne_nil hne
  obtain ⟨complete, hcomplete, hcompletes⟩ := exists_forall₂_completes h.2
  have hset := Value.member?_setMember_self "pages" (.array complete) document
  have hin := pagesIn_eq hset
  obtain ⟨front, back, hdocument, hplaced⟩ := exists_setMember_eq hpages
  refine ⟨_, completeAnalysis_eq_ok hne hpages hcomplete, ⟨?_, ?_, ?_, ?_⟩, ?_⟩
  · rw [hplaced, hdocument]
    simp
  · exact fun name hname => Value.member?_setMember_of_ne hname _ document
  · rw [HasPages, hin, hset]
  · rwa [hin]
  · have hcompleteNe : complete ≠ [] := by
      rintro rfl
      exact hne (List.forall₂_nil_right_iff.mp hcompletes)
    rw [completeAnalysis_eq_ok hcompleteNe hset (forall₂_completePage_self hcompletes),
      setMember_eq_self hset]

end Documents

/-- A document is read from a reply whatever words stand around it. -/
theorem completed_of_surrounded {before text after : String} {document : List (String × Value)}
    (hbefore : '\x7b' ∉ before.toList) (hafter : '\x7d' ∉ after.toList)
    (hopen : text.toList.head? = some '\x7b') (hclose : text.toList.getLast? = some '\x7d')
    (hread : Json.read text.toList = .ok (.object document))
    (hpages : hasObjectPages (.object document) = true) :
    ∃ analysis, readReply (before ++ text ++ after) = .ok (.object analysis) ∧
      Completed document analysis ∧
      completeAnalysis (.object analysis) = .ok (.object analysis) := by
  have hfound : documentIn? (before ++ text ++ after).toList = some text.toList := by
    rw [String.toList_append, String.toList_append, List.append_assoc]
    exact documentIn?_append hbefore hafter hopen hclose
  obtain ⟨analysis, hanalysis, hcompleted, hagain⟩ := exists_completed hpages
  refine ⟨analysis, ?_, hcompleted, hagain⟩
  rw [readReply, hfound]
  dsimp only
  rw [hread]
  exact hanalysis

/-- A document with braces in a text and in a member that is an object, and with a page that
has one of the parts and one that has none. -/
def bracedText : String :=
  "\x7b\"theme\": \x7b\"mark\": \"\x7d \x7b\"\x7d, \"pages\": [\x7b\"slicers\": [1], " ++
    "\"name\": \"A\x7d\"\x7d, \x7b\x7d], \"total\": 2\x7d"

/-- The same document with complete pages. -/
def bracedAnalysis : String :=
  "\x7b\"theme\": \x7b\"mark\": \"\x7d \x7b\"\x7d, \"pages\": [\x7b\"slicers\": [1], " ++
    "\"name\": \"A\x7d\", \"visuals\": [], \"filters\": []\x7d, " ++
    "\x7b\"visuals\": [], \"slicers\": [], \"filters\": []\x7d], \"total\": 2\x7d"

theorem completed_of_bracedText : ∃ document analysis,
    Json.read bracedText.toList = .ok (.object document) ∧
      hasObjectPages (.object document) = true ∧
      readReply ("Here \x7d:\n" ++ bracedText ++ "\n\x7b done") = .ok (.object analysis) ∧
      Completed document analysis ∧
      completeAnalysis (.object analysis) = .ok (.object analysis) ∧
      (Value.object analysis).compact = bracedAnalysis := by
  have hread : (Json.read bracedText.toList).toOption.map hasObjectPages = some true := by
    decide +kernel
  have hreply : (readReply ("Here \x7d:\n" ++ bracedText ++ "\n\x7b done")).toOption.map
      Value.compact = some bracedAnalysis := by
    decide +kernel
  have hbefore : '\x7b' ∉ "Here \x7d:\n".toList := by decide
  have hafter : '\x7d' ∉ "\n\x7b done".toList := by decide
  obtain ⟨value, hvalue, hpages⟩ := Option.map_eq_some_iff.mp hread
  cases value with
  | object document =>
      have hok := eq_ok_of_toOption_eq_some hvalue
      obtain ⟨analysis, hanalysis, hcompleted, hagain⟩ :=
        completed_of_surrounded hbefore hafter (by decide) (by decide) hok hpages
      rw [hanalysis] at hreply
      exact ⟨document, analysis, hok, hpages, hanalysis, hcompleted, hagain,
        Option.some.inj hreply⟩
  | null | bool _ | int _ | real _ | text _ | array _ => cases hpages

end QlikMigration.Vision
