import QlikMigration.Proofs.Drawing
import QlikMigration.Proofs.Effects
import QlikMigration.Vision.Analyzer

/-!
# Consuming an analysis

A model's reply is accepted if it has a list of pages, each of which holds the
names of three parts. What the parts are is not looked at, and a page need not
even be an object. So an accepted analysis may fail where it is summed up, where
the types of its visuals are listed or where its pages are laid out.

For each consumer this module says which shape it needs of a page. Putting the
three together, `consumption_of_analyzeByModel` says which of the accepted analyses
can be consumed: those whose pages are objects with a list of visuals that can
be drawn, a list of slicers that can be placed and filters that can be counted.
-/

namespace QlikMigration.Vision

open Json (Value AccessError isOk_bind isOk_mapM forall₂_of_mapM_eq_ok eq_ok_of_toOption_eq_some)

/-- The pages in an analysis. -/
def pagesIn (analysis : Value) : List Value :=
  match analysis.member? "pages" with
  | some (.array pages) => pages
  | _ => []

/-- An analysis with a list of pages. -/
def HasPages (analysis : Value) : Prop :=
  analysis.member? "pages" = some (.array (pagesIn analysis))

theorem HasPages.isObject {analysis : Value} (h : HasPages analysis) :
    analysis.isObject = true := by
  cases analysis with
  | object members => rfl
  | null | bool _ | int _ | real _ | text _ | array _ => cases h

theorem HasPages.getD {analysis : Value} (h : HasPages analysis) :
    analysis.getD "pages" (.array []) = .ok (.array (pagesIn analysis)) := by
  rw [Value.getD_of_isObject h.isObject, Value.partD, h, Option.getD_some]

theorem HasPages.pagesOf {analysis : Value} (h : HasPages analysis) :
    pagesOf analysis = .ok (pagesIn analysis) := by
  rw [Vision.pagesOf, h.getD]
  rfl

/-! ## Counting -/

/-- Whether the parts of a page can be counted. -/
def isCounted (page : Value) : Bool :=
  page.isObject && pageParts.all fun part => (page.partIn part).isSized

theorem isOk_countPart_bind {α : Type} {page : Value} (hobject : page.isObject = true)
    (part : String) {next : Nat → Except AccessError α} {shaped : Bool}
    (h : ∀ count, (next count).isOk = shaped) :
    (page.getD part (.array []) >>= fun items => items.size >>= next).isOk =
      ((page.partIn part).isSized && shaped) := by
  rw [Value.isOk_getD_bind, hobject, Bool.true_and, isOk_bind h, Value.isOk_size, Value.partIn]

theorem isOk_summarizePage (page : Value) : (summarizePage page).isOk = isCounted page := by
  rw [summarizePage, Value.isOk_getD_bind, isCounted]
  cases hobject : page.isObject with
  | false => rfl
  | true =>
      exact isOk_countPart_bind hobject "visuals" fun visuals =>
        isOk_countPart_bind hobject "slicers" fun slicers =>
          isOk_countPart_bind hobject "filters" fun filters => rfl

theorem isOk_summarize (theme : String) {analysis : Value} (h : HasPages analysis) :
    (summarize theme analysis).isOk = (pagesIn analysis).all isCounted := by
  have htheme : ∀ pages, (analysis.getD "theme" (.text theme) >>= fun theme =>
      pure ({ pages, theme } : Summary)).isOk = true := by
    intro pages
    rw [Value.isOk_getD_bind, h.isObject]
    rfl
  rw [summarize, h.pagesOf]
  show ((pagesIn analysis).mapM summarizePage >>= _).isOk = _
  rw [isOk_bind htheme, isOk_mapM, Bool.and_true]
  simp only [isOk_summarizePage]

/-! ## Listing types -/

section Types

/-- The kinds of value among which types can be put in order. -/
inductive TypeSort
  | text
  | number
  | nothing
  deriving DecidableEq

/-- The kind of a simple value. -/
def sort? : Value → Option TypeSort
  | .text _ => some .text
  | .bool _ | .int _ | .real _ => some .number
  | .null => some .nothing
  | .array _ | .object _ => none

/-- Whether all types are of one kind. -/
def isUniform (types : List Value) : Bool :=
  [TypeSort.text, .number, .nothing].any fun kind => types.all fun type => sort? type == some kind

/-- The type of a visual, or the default. -/
def typeIn (visual : Value) : Value :=
  visual.partD "type" (.text "unknown")

/-- Whether a visual has a type that can be told from others. -/
def isTyped (visual : Value) : Bool :=
  visual.isObject && isSimple (typeIn visual)

/-- The types of the visuals on a page. -/
def typesIn (page : Value) : List Value :=
  match page.partIn "visuals" with
  | .array visuals => visuals.map typeIn
  | _ => []

/-- Whether the visuals of a page can be gone through for their types. -/
def isTypedPage (page : Value) : Bool :=
  page.isObject && (page.partIn "visuals").lists isTyped

/-- Adds the types that are not there yet, one after the other. -/
def gather (types more : List Value) : List Value :=
  more.foldl (fun types type => if types.any (sameSimple type) then types else types ++ [type])
    types

/-- A loop that stops at the first item it does not take succeeds if it takes all of them. -/
theorem toOption_foldlM {ε σ α : Type} {f : σ → α → Except ε σ} {g : σ → α → σ} {p : α → Bool}
    (h : ∀ state item, (f state item).toOption = if p item then some (g state item) else none)
    (items : List α) (state : σ) :
    (items.foldlM f state).toOption = if items.all p then some (items.foldl g state) else none := by
  induction items generalizing state with
  | nil => rfl
  | cons item items ih =>
      have hitem := h state item
      rw [List.foldlM_cons, List.all_cons, List.foldl_cons]
      cases hf : f state item with
      | error cause =>
          rw [hf] at hitem
          cases hp : p item with
          | false => rfl
          | true => simp [hp, Except.toOption] at hitem
      | ok next =>
          rw [hf] at hitem
          cases hp : p item with
          | false => simp [hp, Except.toOption] at hitem
          | true =>
              obtain rfl : next = g state item := by simpa [hp, Except.toOption] using hitem
              exact ih (g state item)

theorem toOption_addType (types : List Value) (visual : Value) :
    (typeOf visual >>= addType types).toOption =
      if isTyped visual then some (gather types [typeIn visual]) else none := by
  rw [isTyped]
  cases hobject : visual.isObject with
  | false =>
      cases visual with
      | object members => cases hobject
      | null | bool _ | int _ | real _ | text _ | array _ => rfl
  | true =>
      rw [typeOf, Value.getD_of_isObject hobject]
      show (addType types (typeIn visual)).toOption = _
      rw [addType]
      cases isSimple (typeIn visual) <;> rfl

theorem toOption_addPageTypes (types : List Value) (page : Value) :
    (addPageTypes types page).toOption =
      if isTypedPage page then some (gather types (typesIn page)) else none := by
  have hvisuals : ∀ visuals : List Value,
      (visuals.foldlM (fun types visual => typeOf visual >>= addType types) types).toOption =
        if visuals.all isTyped then some (gather types (visuals.map typeIn)) else none := by
    intro visuals
    rw [toOption_foldlM toOption_addType, gather, List.foldl_map]
    rfl
  rw [isTypedPage]
  cases hobject : page.isObject with
  | false =>
      cases page with
      | object members => cases hobject
      | null | bool _ | int _ | real _ | text _ | array _ => rfl
  | true =>
      rw [addPageTypes, Value.getD_of_isObject hobject]
      show ((page.partIn "visuals").elements >>= _).toOption = _
      rw [typesIn]
      cases hpart : page.partIn "visuals" with
      | array visuals => exact hvisuals visuals
      | text s =>
          refine (hvisuals _).trans ?_
          rw [Value.lists, ← Value.isEmpty_toList]
          cases s.toList <;> rfl
      | object members =>
          refine (hvisuals _).trans ?_
          rw [Value.lists]
          cases members <;> rfl
      | null | bool _ | int _ | real _ => rfl

theorem mem_gather {types more : List Value} {type : Value} (h : type ∈ gather types more) :
    type ∈ types ∨ type ∈ more := by
  induction more generalizing types with
  | nil => exact Or.inl h
  | cons first more ih =>
      rw [gather, List.foldl_cons] at h
      cases ih h with
      | inr hmore => exact Or.inr (List.mem_cons_of_mem first hmore)
      | inl htypes =>
          split at htypes
          · exact Or.inl htypes
          · cases List.mem_append.mp htypes with
            | inl hold => exact Or.inl hold
            | inr hnew => exact Or.inr (List.mem_singleton.mp hnew ▸ List.mem_cons_self)

/-- Values that count as one are of one kind. -/
theorem sort?_eq_of_sameSimple {type other : Value} (h : sameSimple type other = true) :
    sort? type = sort? other := by
  cases type with
  | text s =>
      cases other with
      | text t => rfl
      | null | bool _ | int _ | real _ | array _ | object _ => cases h
  | null =>
      cases other with
      | null => rfl
      | bool _ | int _ | real _ | text _ | array _ | object _ => cases h
  | bool _ | int _ | real _ =>
      cases other with
      | bool _ | int _ | real _ => rfl
      | null | text _ | array _ | object _ => cases h
  | array _ | object _ => cases other <;> cases h

/-- Every type has one of its kind among those that are gathered. -/
theorem exists_mem_gather {types more : List Value} {type : Value}
    (h : type ∈ types ∨ type ∈ more) : ∃ kept ∈ gather types more, sort? kept = sort? type := by
  induction more generalizing types type with
  | nil =>
      cases h with
      | inl htypes => exact ⟨type, htypes, rfl⟩
      | inr hmore => cases hmore
  | cons first more ih =>
      have hfirst : ∃ kept,
          kept ∈ (if types.any (sameSimple first) then types else types ++ [first]) ∧
            sort? kept = sort? first := by
        split
        · next hany =>
            obtain ⟨kept, hkept, hsame⟩ := List.any_eq_true.mp hany
            exact ⟨kept, hkept, (sort?_eq_of_sameSimple hsame).symm⟩
        · exact ⟨first, List.mem_append_right types (List.mem_singleton_self first), rfl⟩
      rw [gather, List.foldl_cons]
      rcases h with htypes | hmore
      · refine ih (Or.inl ?_)
        split
        · exact htypes
        · exact List.mem_append_left [first] htypes
      · cases List.mem_cons.mp hmore with
        | inl heq =>
            obtain ⟨kept, hkept, hsort⟩ := hfirst
            obtain ⟨later, hlater, hsame⟩ := ih (Or.inl hkept)
            exact ⟨later, hlater, hsame.trans (heq ▸ hsort)⟩
        | inr hlater => exact ih (Or.inr hlater)

/-- The types that are gathered are of one kind if all types are. -/
theorem forall_mem_gather (types : List Value) (kind : TypeSort) :
    (∀ type ∈ gather [] types, sort? type = some kind) ↔
      ∀ type ∈ types, sort? type = some kind := by
  constructor
  · intro hall type htype
    obtain ⟨kept, hkept, hsort⟩ := @exists_mem_gather [] types type (Or.inr htype)
    exact hsort ▸ hall kept hkept
  · intro hall type htype
    exact hall type ((mem_gather htype).resolve_left List.not_mem_nil)

/-- Of values that are all null one is kept. -/
theorem length_gather_of_null {types : List Value}
    (h : ∀ type ∈ types, sort? type = some .nothing) : (gather [] types).length ≤ 1 := by
  have hkept : ∀ (more kept : List Value), (∀ type ∈ more, sort? type = some .nothing) →
      kept = [] ∨ kept = [.null] → (gather kept more).length ≤ 1 := by
    intro more
    induction more with
    | nil =>
        rintro kept - (rfl | rfl)
        · exact Nat.zero_le 1
        · exact Nat.le_refl 1
    | cons type more ih =>
        intro kept hmore hkept
        rw [List.forall_mem_cons] at hmore
        obtain rfl : type = .null := by
          cases type with
          | null => rfl
          | bool _ | int _ | real _ | text _ | array _ | object _ => cases hmore.1
        rw [gather, List.foldl_cons]
        refine ih _ hmore.2 (Or.inr ?_)
        rcases hkept with rfl | rfl <;> rfl
  exact hkept types [] h (Or.inl rfl)

/-- Types can be put in order if there is at most one, or if all are texts or all numbers. -/
theorem isOk_sortTypes_iff (types : List Value) :
    (sortTypes types).isOk = true ↔ types.length ≤ 1 ∨
      (∀ type ∈ types, sort? type = some .text) ∨ ∀ type ∈ types, sort? type = some .number := by
  have hnumber : ∀ type, (number? type).isSome = true ↔ sort? type = some .number := by
    intro type
    cases type <;> simp [number?, sort?]
  unfold sortTypes
  simp only [beq_iff_eq, List.filterMap_length_eq_length, List.all_eq_true, hnumber]
  split
  · next hfew => exact ⟨fun _ => Or.inl hfew, fun _ => rfl⟩
  · next hmany =>
      split
      · next htexts =>
          refine ⟨fun _ => Or.inr (Or.inl fun type htype => ?_), fun _ => rfl⟩
          have htext := htexts type htype
          cases type with
          | text s => rfl
          | null | bool _ | int _ | real _ | array _ | object _ => cases htext
      · next htexts =>
          split
          · next hnumbers => exact ⟨fun _ => Or.inr (Or.inr hnumbers), fun _ => rfl⟩
          · next hnumbers =>
              refine ⟨nofun, ?_⟩
              rintro (hfew | hall | hall)
              · exact absurd hfew hmany
              · refine absurd (fun type htype => ?_) htexts
                have htext := hall type htype
                cases type with
                | text s => rfl
                | null | bool _ | int _ | real _ | array _ | object _ => cases htext
              · exact absurd hall hnumbers

theorem isUniform_iff {types : List Value} :
    isUniform types = true ↔ ∃ kind, ∀ type ∈ types, sort? type = some kind := by
  have hkinds : ∀ kind, kind ∈ [TypeSort.text, .number, .nothing] := by
    intro kind
    cases kind <;> decide
  simp only [isUniform, List.any_eq_true, List.all_eq_true, beq_iff_eq]
  exact ⟨fun ⟨kind, _, hall⟩ => ⟨kind, hall⟩, fun ⟨kind, hall⟩ => ⟨kind, hkinds kind, hall⟩⟩

theorem exists_sort?_of_isSimple {type : Value} (h : isSimple type = true) :
    ∃ kind, sort? type = some kind := by
  cases type with
  | array _ | object _ => cases h
  | null | bool _ | int _ | real _ | text _ => exact ⟨_, rfl⟩

/-- The types that are gathered can be put in order exactly if all are of one kind. -/
theorem isOk_sortTypes_gather {types : List Value} (hsimple : types.all isSimple = true) :
    (sortTypes (gather [] types)).isOk = isUniform types := by
  rw [Bool.eq_iff_iff, isOk_sortTypes_iff, isUniform_iff]
  constructor
  · rintro (hfew | htexts | hnumbers)
    · cases hkept : gather [] types with
      | nil => exact ⟨.text, (forall_mem_gather types .text).mp (by simp [hkept])⟩
      | cons type rest =>
          have htype : type ∈ types :=
            (mem_gather (hkept ▸ List.mem_cons_self)).resolve_left List.not_mem_nil
          obtain ⟨kind, hkind⟩ := exists_sort?_of_isSimple (List.all_eq_true.mp hsimple type htype)
          obtain rfl : rest = [] := by
            rw [hkept, List.length_cons] at hfew
            exact List.eq_nil_of_length_eq_zero (by omega)
          refine ⟨kind, (forall_mem_gather types kind).mp ?_⟩
          rw [hkept, List.forall_mem_singleton]
          exact hkind
    · exact ⟨.text, (forall_mem_gather types .text).mp htexts⟩
    · exact ⟨.number, (forall_mem_gather types .number).mp hnumbers⟩
  · rintro ⟨kind, hall⟩
    cases kind with
    | text => exact Or.inr (Or.inl ((forall_mem_gather types .text).mpr hall))
    | number => exact Or.inr (Or.inr ((forall_mem_gather types .number).mpr hall))
    | nothing => exact Or.inl (length_gather_of_null hall)

theorem all_isSimple_typesIn {page : Value} (h : isTypedPage page = true) :
    (typesIn page).all isSimple = true := by
  have hvisuals := (Bool.and_eq_true_iff.mp h).2
  rw [typesIn]
  split
  · next visuals hpart =>
      rw [hpart] at hvisuals
      rw [List.all_map, List.all_eq_true]
      intro visual hvisual
      exact (Bool.and_eq_true_iff.mp (List.all_eq_true.mp hvisuals visual hvisual)).2
  · rfl

theorem isOk_visualTypes {analysis : Value} (h : HasPages analysis) :
    (visualTypes analysis).isOk = ((pagesIn analysis).all isTypedPage &&
      isUniform ((pagesIn analysis).flatMap typesIn)) := by
  have hpages := toOption_foldlM toOption_addPageTypes (pagesIn analysis) []
  have hgather : (pagesIn analysis).foldl (fun types page => gather types (typesIn page)) [] =
      gather [] ((pagesIn analysis).flatMap typesIn) := by
    rw [gather, List.foldl_flatMap]
    rfl
  rw [visualTypes, h.pagesOf]
  show ((pagesIn analysis).foldlM addPageTypes [] >>= sortTypes).isOk = _
  cases hfold : (pagesIn analysis).foldlM addPageTypes [] with
  | error cause =>
      cases htyped : (pagesIn analysis).all isTypedPage with
      | false => rfl
      | true =>
          rw [hfold, htyped] at hpages
          cases hpages
  | ok types =>
      cases htyped : (pagesIn analysis).all isTypedPage with
      | false =>
          rw [hfold, htyped] at hpages
          cases hpages
      | true =>
          rw [hfold, htyped, if_pos rfl, hgather] at hpages
          obtain rfl : types = gather [] ((pagesIn analysis).flatMap typesIn) :=
            Option.some.inj hpages
          have hsimple : ((pagesIn analysis).flatMap typesIn).all isSimple = true := by
            rw [List.all_flatMap, List.all_eq_true]
            exact fun page hpage => all_isSimple_typesIn (List.all_eq_true.mp htyped page hpage)
          exact isOk_sortTypes_gather hsimple

end Types

/-! ## Accepted analyses -/

/-- Completing the members of a page keeps the names there are and adds those asked for. -/
theorem holds_completeMembers {part : String} {members : List (String × Value)}
    {parts : List String} (h : part ∈ parts ∨ (Value.object members).holds part = true) :
    (Value.object (completeMembers members parts)).holds part = true := by
  induction parts generalizing members with
  | nil => exact h.resolve_left List.not_mem_nil
  | cons first parts ih =>
      rw [completeMembers]
      split
      · next hfirst =>
          apply ih
          rcases h with hmem | hholds
          · rcases List.mem_cons.mp hmem with rfl | hmem
            · exact .inr hfirst
            · exact .inl hmem
          · exact .inr hholds
      · apply ih
        rw [Value.holds, List.any_append, Bool.or_eq_true]
        rcases h with hmem | hholds
        · rcases List.mem_cons.mp hmem with rfl | hmem
          · exact .inr (.inr (by simp))
          · exact .inl hmem
        · exact .inr (.inl hholds)

theorem all_holds_of_completePage {page complete : Value}
    (h : completePage page = .ok complete) : pageParts.all complete.holds = true := by
  cases page with
  | object members =>
      obtain rfl := Except.ok.inj h
      exact List.all_eq_true.mpr fun part hpart => holds_completeMembers (.inl hpart)
  | text s =>
      rw [completePage] at h
      split at h
      · next hparts =>
          obtain rfl := Except.ok.inj h
          exact hparts
      · cases h
  | array items =>
      rw [completePage] at h
      split at h
      · next hparts =>
          obtain rfl := Except.ok.inj h
          exact hparts
      · cases h
  | null | bool _ | int _ | real _ => cases h

theorem all_holds_of_forall₂ {pages complete : List Value}
    (h : List.Forall₂ (fun page whole => completePage page = .ok whole) pages complete) :
    ∀ page ∈ complete, pageParts.all page.holds = true := by
  induction h with
  | nil => exact fun page hpage => absurd hpage List.not_mem_nil
  | cons hpage hpages ih =>
      exact List.forall_mem_cons.mpr ⟨all_holds_of_completePage hpage, ih⟩

/-- What every accepted analysis is: it has a page, and every page holds the names of the
three parts. -/
structure Accepted (analysis : Value) : Prop where
  hasPages : HasPages analysis
  pages_ne_nil : pagesIn analysis ≠ []
  holds : ∀ page ∈ pagesIn analysis, pageParts.all page.holds = true

theorem accepted_of_completeAnalysis {document analysis : Value}
    (h : completeAnalysis document = .ok analysis) : Accepted analysis := by
  unfold completeAnalysis at h
  split at h
  · next members =>
      split at h
      · cases h
      · next page pages hpages =>
          cases hcomplete : (page :: pages).mapM completePage with
          | error cause =>
              rw [hcomplete] at h
              cases h
          | ok complete =>
              rw [hcomplete] at h
              obtain rfl := Except.ok.inj h
              have hset := Value.member?_setMember_self "pages" (.array complete) members
              have hin : pagesIn (.object (Value.setMember "pages" (.array complete) members)) =
                  complete := by
                rw [pagesIn, hset]
              have hforall := forall₂_of_mapM_eq_ok hcomplete
              refine ⟨?_, ?_, ?_⟩
              · rw [HasPages, hin, hset]
              · rw [hin]
                intro hnil
                rw [hnil] at hforall
                cases hforall
              · rw [hin]
                exact all_holds_of_forall₂ hforall
      · cases h
  · cases h

theorem accepted_of_readReply {reply : String} {analysis : Value}
    (h : readReply reply = .ok analysis) : Accepted analysis := by
  rw [readReply] at h
  split at h
  · cases h
  · split at h
    · cases h
    · exact accepted_of_completeAnalysis h

theorem readReply_of_analyzeByModel {services : Services} {path : String} {world : World}
    {analysis : Value} (h : ((analyzeByModel services path).perform world).1 = .ok analysis) :
    readReply services.reply = .ok analysis := by
  obtain ⟨size, opened, -, hsize⟩ := Effect.perform_bind_eq_ok_iff.mp (Prod.ext h rfl)
  obtain ⟨-, asked, -, hreply⟩ := Effect.perform_bind_eq_ok_iff.mp hsize
  cases hread : readReply services.reply with
  | error cause =>
      rw [hread] at hreply
      cases hreply
  | ok document =>
      rw [hread] at hreply
      exact congrArg Except.ok (Except.ok.inj (congrArg Prod.fst hreply))

/-! ## What can be consumed -/

/-- Whether a page can be consumed: it is an object whose visuals can be drawn, whose slicers
can be placed and whose filters can be counted. -/
def isConsumable (page : Value) : Bool :=
  Report.isLaidOut page && (page.partIn "filters").isSized

section Consumable

variable {page : Value}

theorem isSized_of_lists {p : Value → Bool} {value : Value} (h : value.lists p = true) :
    value.isSized = true := by
  cases value with
  | text _ | array _ | object _ => rfl
  | null | bool _ | int _ | real _ => cases h

theorem isCounted_of_isConsumable (h : isConsumable page = true) : isCounted page = true := by
  simp only [isConsumable, Report.isLaidOut, Bool.and_eq_true] at h
  obtain ⟨⟨hobject, hvisuals, hslicers⟩, hfilters⟩ := h
  simp [isCounted, pageParts, hobject, isSized_of_lists hvisuals, isSized_of_lists hslicers,
    hfilters]

/-- The type of a visual that can be drawn is a text. -/
theorem sort?_typeIn_of_isDrawable {visual : Value} (h : isDrawable visual = true) :
    sort? (typeIn visual) = some .text := by
  have hshown : isShown visual = true := (Bool.and_eq_true_iff.mp h).2
  rw [isShown, Value.partD] at hshown
  rw [typeIn, Value.partD]
  cases htype : visual.member? "type" with
  | none => rfl
  | some type =>
      rw [htype] at hshown
      cases type with
      | text s => rfl
      | null | bool _ | int _ | real _ | array _ | object _ => cases hshown

theorem isSimple_of_sort?_eq_some {type : Value} {kind : TypeSort} (h : sort? type = some kind) :
    isSimple type = true := by
  cases type with
  | array _ | object _ => cases h
  | null | bool _ | int _ | real _ | text _ => rfl

theorem isTyped_of_isDrawable {visual : Value} (h : isDrawable visual = true) :
    isTyped visual = true := by
  have hobject : visual.isObject = true :=
    (Bool.and_eq_true_iff.mp (Bool.and_eq_true_iff.mp h).1).1
  rw [isTyped, hobject, isSimple_of_sort?_eq_some (sort?_typeIn_of_isDrawable h)]
  rfl

theorem lists_mono {p q : Value → Bool} (h : ∀ value, p value = true → q value = true)
    {value : Value} (hlists : value.lists p = true) : value.lists q = true := by
  cases value with
  | array items =>
      exact List.all_eq_true.mpr fun item hitem => h item (List.all_eq_true.mp hlists item hitem)
  | text _ | object _ => exact hlists
  | null | bool _ | int _ | real _ => cases hlists

theorem isTypedPage_of_isLaidOut (h : Report.isLaidOut page = true) : isTypedPage page = true := by
  simp only [Report.isLaidOut, Bool.and_eq_true] at h
  rw [isTypedPage, h.1, lists_mono (fun _ => isTyped_of_isDrawable) h.2.1]
  rfl

theorem sort?_of_mem_typesIn (h : Report.isLaidOut page = true) {type : Value}
    (htype : type ∈ typesIn page) : sort? type = some .text := by
  simp only [Report.isLaidOut, Bool.and_eq_true] at h
  rw [typesIn] at htype
  split at htype
  · next visuals hvisuals =>
      obtain ⟨visual, hvisual, rfl⟩ := List.mem_map.mp htype
      have hlists := h.2.1
      rw [hvisuals] at hlists
      exact sort?_typeIn_of_isDrawable (List.all_eq_true.mp hlists visual hvisual)
  · exact absurd htype List.not_mem_nil

/-- The types of pages that can be laid out are texts, so they can be put in order. -/
theorem isUniform_of_isLaidOut {pages : List Value}
    (h : ∀ page ∈ pages, Report.isLaidOut page = true) :
    isUniform (pages.flatMap typesIn) = true := by
  have htexts : ∀ type ∈ pages.flatMap typesIn, sort? type = some .text := by
    intro type htype
    obtain ⟨page, hpage, hmem⟩ := List.mem_flatMap.mp htype
    exact sort?_of_mem_typesIn (h page hpage) hmem
  exact List.any_eq_true.mpr ⟨.text, List.mem_cons_self,
    List.all_eq_true.mpr fun type htype => beq_iff_eq.mpr (htexts type htype)⟩

end Consumable

theorem isOk_sectionsOf {analysis : Value} (h : HasPages analysis) :
    (Report.sectionsOf analysis).isOk = (pagesIn analysis).all Report.isLaidOut := by
  rw [Report.sectionsOf, h.getD]
  exact Report.isOk_sectionsFrom 0 (pagesIn analysis)

/-- What becomes of an analysis that was accepted. -/
structure Consumption (analysis : Value) : Prop where
  /-- It has a page, and every page holds the names of the three parts. -/
  accepted : Accepted analysis
  /-- It can be summed up if the parts of every page can be counted. -/
  summarized_iff : (summarize Analyzer.model.defaultTheme analysis).isOk = true ↔
    ∀ page ∈ pagesIn analysis, isCounted page = true
  /-- Its types can be listed if every visual has a simple type and all types are of a kind. -/
  listed_iff : (visualTypes analysis).isOk = true ↔
    (∀ page ∈ pagesIn analysis, isTypedPage page = true) ∧
      isUniform ((pagesIn analysis).flatMap typesIn) = true
  /-- A page can be laid out at any place if its visuals and slicers can be drawn. -/
  laidOut_iff : ∀ page ∈ pagesIn analysis, ∀ index,
    (Report.Section.ofPage index page).isOk = true ↔ Report.isLaidOut page = true
  /-- All of this succeeds exactly if every page can be consumed. -/
  consumed_iff : (summarize Analyzer.model.defaultTheme analysis).isOk = true ∧
      (visualTypes analysis).isOk = true ∧ (Report.sectionsOf analysis).isOk = true ↔
    ∀ page ∈ pagesIn analysis, isConsumable page = true

/-- An analysis that the model's reply was accepted as can be consumed exactly if each of its
pages can. Being accepted says nothing about that. -/
theorem consumption_of_analyzeByModel (services : Services) (path : String) (world : World)
    (analysis : Value) (h : ((analyzeByModel services path).perform world).1 = .ok analysis) :
    Consumption analysis := by
  have haccepted := accepted_of_readReply (readReply_of_analyzeByModel h)
  have hsummary := isOk_summarize Analyzer.model.defaultTheme haccepted.hasPages
  have htypes := isOk_visualTypes haccepted.hasPages
  have hlayout := isOk_sectionsOf haccepted.hasPages
  refine ⟨haccepted, ?_, ?_, ?_, ?_⟩
  · rw [hsummary, List.all_eq_true]
  · rw [htypes, Bool.and_eq_true, List.all_eq_true]
  · intro page _ index
    rw [Report.isOk_ofPage]
  · rw [hsummary, htypes, hlayout, Bool.and_eq_true]
    simp only [List.all_eq_true]
    constructor
    · rintro ⟨hcounted, -, hlaidOut⟩ page hpage
      have hfilters := hcounted page hpage
      simp only [isCounted, pageParts, List.all_cons, Bool.and_eq_true] at hfilters
      rw [isConsumable, hlaidOut page hpage, hfilters.2.2.2.1]
      rfl
    · intro hconsumable
      have hlaidOut : ∀ page ∈ pagesIn analysis, Report.isLaidOut page = true :=
        fun page hpage => (Bool.and_eq_true_iff.mp (hconsumable page hpage)).1
      exact ⟨fun page hpage => isCounted_of_isConsumable (hconsumable page hpage),
        ⟨fun page hpage => isTypedPage_of_isLaidOut (hlaidOut page hpage),
          isUniform_of_isLaidOut hlaidOut⟩, hlaidOut⟩

/-- A model that replies with a page whose visuals are null. -/
def visuallessModel : Services where
  datasetId := ""
  reportId := ""
  reply := "Here it is: \x7b\"pages\": [\x7b\"name\": \"Sales\", \"visuals\": null\x7d]\x7d."

/-- A world with a picture of a dashboard. -/
def picturedWorld : World where
  directory := { files := .ofList [(["sales.png"], .picture 1280 720)] }

/-- The page without visuals is accepted, but it cannot be summed up. -/
theorem consumption_of_visuallessModel : ∃ analysis,
    ((analyzeByModel visuallessModel "sales.png").perform picturedWorld).1 = .ok analysis ∧
      Consumption analysis ∧
      (summarize Analyzer.model.defaultTheme analysis).isOk = false := by
  have htest : (((analyzeByModel visuallessModel "sales.png").perform picturedWorld).1.toOption.map
      fun analysis => (summarize Analyzer.model.defaultTheme analysis).isOk) = some false := by
    decide +kernel
  obtain ⟨analysis, hanalysis, hsummary⟩ := Option.map_eq_some_iff.mp htest
  have hok := eq_ok_of_toOption_eq_some hanalysis
  exact ⟨analysis, hok, consumption_of_analyzeByModel _ _ _ _ hok, hsummary⟩

end QlikMigration.Vision
