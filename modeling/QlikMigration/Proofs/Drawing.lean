import QlikMigration.Proofs.DocumentShapes
import QlikMigration.Report.Layout

/-!
# Descriptions that can be drawn

A page of an analysis is laid out by drawing each of its visuals and slicers.
This module says for each of them which shape its description needs: a position
whose sides are numbers, a type that is a text, and the fields and colours that
its kind is drawn from. What a description lacks is taken from the defaults, so
only what it gives can be in the way.

The names that visuals get and the number of the page have no part in this.
`isOk_ofPage` says which pages can be laid out, and `isOk_sectionsFrom` that
pages can be laid out together if each of them can.
-/

namespace QlikMigration

open Json (Value AccessError isOk_bind isOk_bind_pure)

/-! ## Places -/

/-- The sides that a position may give. -/
def Place.sides : List String := ["x", "y", "width", "height"]

/-- Whether a position gives a place: every side that it has is a number. -/
def isPlaced (position : Value) : Bool :=
  position.isObject && Place.sides.all fun side => (position.member? side).all Value.isNumber

theorem isOk_side_bind {α : Type} {position default : Value} (hobject : position.isObject = true)
    (hdefault : default.isNumber = true) (name : String) (percent : Float)
    {next : Float → Except AccessError α} {shaped : Bool} (h : ∀ x, (next x).isOk = shaped) :
    ((position.getD name default >>= fun side => side.toReal >>= fun x => pure (x * percent)) >>=
      next).isOk = ((position.member? name).all Value.isNumber && shaped) := by
  rw [isOk_bind h, Value.isOk_getD_bind, hobject, Bool.true_and, isOk_bind_pure,
    Value.isOk_toReal, Value.partD_eq_all hdefault]

theorem isOk_ofPosition (position : Value) :
    (Place.ofPosition position).isOk = isPlaced position := by
  cases position with
  | object members =>
      have hzero : (Value.int 0).isNumber = true := by decide
      have hthirty : (Value.int 30).isNumber = true := by decide
      have htwenty : (Value.int 20).isNumber = true := by decide
      exact isOk_side_bind rfl hzero "x" _ fun _ => isOk_side_bind rfl hzero "y" _ fun _ =>
        isOk_side_bind rfl hthirty "width" _ fun _ => isOk_side_bind rfl htwenty "height" _
          fun _ => rfl
  | null | bool _ | int _ | real _ | text _ | array _ => rfl

/-! ## Fields and colours -/

/-- Whether a description gives what its kind of visual is drawn from. -/
def suits : VisualKind → Value → Bool
  | .bar, description | .line, description =>
      (description.member? "data_fields").all Value.isIndexed &&
        (description.member? "colors").all Value.hasFirst
  | .pie, description | .card, description =>
      (description.member? "data_fields").all Value.isIndexed
  | .table, description => (description.member? "data_fields").all Value.isSized
  | .slicer, _ => true

section Fields

variable {fields : Value}

theorem exists_elements_of_isIndexed (h : fields.isIndexed = true) :
    ∃ elements, fields.elements = .ok elements ∧ fields.size = .ok elements.length := by
  cases fields with
  | text s => exact ⟨_, rfl, by rw [List.length_map, String.length_toList]; rfl⟩
  | array items => exact ⟨items, rfl, rfl⟩
  | object members => exact ⟨_, rfl, by rw [List.length_map]; rfl⟩
  | null | bool _ | int _ | real _ => cases h

theorem isOk_fieldAt (h : fields.isIndexed = true) (index : Nat) (default : String) :
    (Visual.fieldAt fields index default).isOk = true := by
  obtain ⟨elements, helements, hsize⟩ := exists_elements_of_isIndexed h
  rw [Visual.fieldAt, hsize]
  show (if index < elements.length then _ else _ : Except AccessError Value).isOk = true
  split
  · next hindex => exact Value.isOk_at? h helements hindex
  · rfl

/-- The first field is there for what can be indexed, and for nothing else. -/
theorem isOk_fieldAt_zero (default : String) :
    (Visual.fieldAt fields 0 default).isOk = fields.isIndexed := by
  cases hindexed : fields.isIndexed with
  | true => exact isOk_fieldAt hindexed 0 default
  | false =>
      cases fields with
      | text _ | array _ => cases hindexed
      | object members =>
          cases members with
          | nil => cases hindexed
          | cons member members => rfl
      | null | bool _ | int _ | real _ => rfl

theorem isOk_fieldsAfter (h : fields.isIndexed = true) (default : String) :
    (Visual.fieldsAfter fields default).isOk = true := by
  cases fields with
  | text s =>
      show (if 1 < s.length then _ else _ : Except AccessError (List Value)).isOk = true
      split <;> rfl
  | array items =>
      show (if 1 < items.length then _ else _ : Except AccessError (List Value)).isOk = true
      split <;> rfl
  | object members =>
      obtain rfl := List.isEmpty_iff.mp h
      rfl
  | null | bool _ | int _ | real _ => cases h

/-- Fields of which the first is asked before anything else are taken from what can be
indexed. -/
theorem isOk_fieldAt_zero_bind {α : Type} (default : String)
    {next : Value → Except AccessError α} {shaped : Bool}
    (h : fields.isIndexed = true → ∀ field, (next field).isOk = shaped) :
    (Visual.fieldAt fields 0 default >>= next).isOk = (fields.isIndexed && shaped) := by
  rw [← isOk_fieldAt_zero default]
  cases hfirst : Visual.fieldAt fields 0 default with
  | error cause => rfl
  | ok field =>
      have hindexed : fields.isIndexed = true := by rw [← isOk_fieldAt_zero default, hfirst]; rfl
      exact h hindexed field

end Fields

/-- The parts of a chart, taken in order: the fields have to be indexed, and the first colour
has to be there. -/
theorem isOk_chartParts (fields colors : Value) (category : String)
    (build : Value → List Value → Value → Visual) :
    (Visual.fieldAt fields 0 category >>= fun first =>
      Visual.fieldsAfter fields "Value" >>= fun values =>
        colors.at? 0 >>= fun color => pure (build first values color)).isOk =
      (fields.isIndexed && colors.hasFirst) := by
  refine isOk_fieldAt_zero_bind category fun hindexed first => ?_
  have hcolor : ∀ values : List Value, (colors.at? 0 >>= fun color =>
      (pure (build first values color) : Except AccessError Visual)).isOk = colors.hasFirst := by
    intro values
    rw [isOk_bind_pure, Value.isOk_at?_zero]
  rw [isOk_bind hcolor, isOk_fieldsAfter hindexed, Bool.true_and]

section Kinds

variable {description : Value} (hobject : description.isObject = true)

include hobject

theorem isOk_chart (kind : VisualKind) (category : String) (settings : Value → Value) :
    (Visual.chart kind category settings description).isOk =
      ((description.member? "data_fields").all Value.isIndexed &&
        (description.member? "colors").all Value.hasFirst) := by
  have hfields : (Value.ofTexts [category, "Value"]).isIndexed = true := rfl
  have hcolors : (Value.ofTexts ["#0078D4"]).hasFirst = true := rfl
  rw [Visual.chart, Visual.fieldsOf, Value.isOk_getD_bind, Value.isOk_getD_bind, hobject,
    Bool.true_and, Bool.true_and, isOk_chartParts _ _ category, Value.partD_eq_all hfields,
    Value.partD_eq_all hcolors]

theorem isOk_ofKind (kind : VisualKind) :
    (Visual.ofKind kind description).isOk = suits kind description := by
  cases kind with
  | bar => exact isOk_chart hobject .bar "Category" Visual.barSettings
  | line => exact isOk_chart hobject .line "Date" Visual.lineSettings
  | pie =>
      have hfields : (Value.ofTexts ["Category", "Value"]).isIndexed = true := rfl
      rw [Visual.ofKind, Visual.fieldsOf, Value.isOk_getD_bind, hobject, Bool.true_and,
        isOk_fieldAt_zero_bind "Category" fun hindexed category =>
          (isOk_bind_pure _ _).trans (isOk_fieldAt hindexed 1 "Value"),
        Bool.and_true, Value.partD_eq_all hfields, suits]
  | table =>
      have hfields : (Value.ofTexts ["Column1", "Column2"]).isSized = true := rfl
      rw [Visual.ofKind, Visual.fieldsOf, Value.isOk_getD_bind, hobject, Bool.true_and,
        isOk_bind_pure, Value.isOk_elements, Value.partD_eq_all hfields, suits]
  | card =>
      have hfields : (Value.ofTexts ["Value"]).isIndexed = true := rfl
      rw [Visual.ofKind, Visual.fieldsOf, Value.isOk_getD_bind, hobject, Bool.true_and,
        isOk_bind_pure, isOk_fieldAt_zero, Value.partD_eq_all hfields, suits]
  | slicer =>
      rw [Visual.ofKind, Value.isOk_getD_bind, hobject]
      rfl

end Kinds

/-! ## Descriptions -/

/-- Whether the type of a description is a text, and the description gives what the kind
that it names is drawn from. -/
def isShown (description : Value) : Bool :=
  match description.partD "type" (.text "bar_chart") with
  | .text type => suits (.ofType type) description
  | _ => false

/-- Whether a visual can be drawn from a description. -/
def isDrawable (description : Value) : Bool :=
  description.isObject && (description.member? "position").all isPlaced && isShown description

/-- Whether a slicer can be drawn from a description, whatever its type. -/
def isSlicer (description : Value) : Bool :=
  description.isObject && (description.member? "position").all isPlaced

theorem isDrawable_text (s : String) : isDrawable (.text s) = false := rfl

theorem isSlicer_text (s : String) : isSlicer (.text s) = false := rfl

theorem isOk_visual {description : Value} (hobject : description.isObject = true) :
    (Visual.ofDescription description).isOk = isShown description := by
  rw [Visual.ofDescription, Value.isOk_getD_bind, hobject, Bool.true_and, isShown]
  cases description.partD "type" (.text "bar_chart") with
  | text type => exact isOk_ofKind hobject (.ofType type)
  | null | bool _ | int _ | real _ | array _ | object _ => rfl

theorem isOk_container (name : String) (description : Value) :
    (Container.ofDescription name description).isOk = isDrawable description := by
  rw [Container.ofDescription, Value.isOk_getD_bind, isDrawable]
  cases hobject : description.isObject with
  | false => rfl
  | true =>
      have hposition : isPlaced (.object []) = true := rfl
      have htitle (place : Place) (visual : Visual) :
          (description.getD "title" (.text "") >>= fun title => pure
            ({ name, place, visual,
               title := if title.isPresent then some title.display else none } :
              Container)).isOk = true := by
        rw [isOk_bind_pure, Value.getD_of_isObject hobject]
        rfl
      have hvisual (place : Place) :
          (Visual.ofDescription description >>= fun visual =>
            description.getD "title" (.text "") >>= fun title => pure
              ({ name, place, visual,
                 title := if title.isPresent then some title.display else none } :
                Container)).isOk = isShown description := by
        rw [isOk_bind (htitle place), Bool.and_true, isOk_visual hobject]
      rw [isOk_bind hvisual, isOk_ofPosition, Value.partD_eq_all hposition, Bool.true_and,
        Bool.true_and]

theorem isDrawable_setMember_type (members : List (String × Value)) :
    isDrawable (.object (Value.setMember "type" (.text "slicer") members)) =
      isSlicer (.object members) := by
  have hkind : VisualKind.ofType "slicer" = .slicer := by decide
  have hposition := Value.member?_setMember_of_ne (show "position" ≠ "type" by decide)
    (.text "slicer") members
  have htype : isShown (.object (Value.setMember "type" (.text "slicer") members)) = true := by
    rw [isShown, Value.partD, Value.member?_setMember_self]
    show suits (.ofType "slicer") _ = true
    rw [hkind]
    rfl
  rw [isDrawable, htype, hposition, Bool.and_true]
  rfl

theorem isOk_slicer (name : String) (description : Value) :
    (Report.asSlicer description >>= Container.ofDescription name).isOk =
      isSlicer description := by
  cases description with
  | object members =>
      exact (isOk_container name _).trans (isDrawable_setMember_type members)
  | null | bool _ | int _ | real _ | text _ | array _ => rfl

/-! ## Pages -/

namespace Report

/-- Whether a page can be laid out. -/
def isLaidOut (page : Value) : Bool :=
  page.isObject && ((page.partIn "visuals").lists isDrawable &&
    (page.partIn "slicers").lists isSlicer)

theorem isOk_containersFrom (what : String) (page position : Nat) (descriptions : List Value) :
    (containersFrom what page position descriptions).isOk = descriptions.all isDrawable := by
  induction descriptions generalizing position with
  | nil => rfl
  | cons description rest ih =>
      have hrest (container : Container) :
          (containersFrom what page (position + 1) rest >>= fun containers =>
            pure (container :: containers)).isOk = rest.all isDrawable := by
        rw [isOk_bind_pure, ih]
      rw [containersFrom, isOk_bind hrest, isOk_container, List.all_cons]

theorem isOk_slicersFrom (page position : Nat) (descriptions : List Value) :
    (slicersFrom page position descriptions).isOk = descriptions.all isSlicer := by
  induction descriptions generalizing position with
  | nil => rfl
  | cons description rest ih =>
      have hrest (container : Container) :
          (slicersFrom page (position + 1) rest >>= fun containers =>
            pure (container :: containers)).isOk = rest.all isSlicer := by
        rw [isOk_bind_pure, ih]
      rw [slicersFrom, List.all_cons, ← isOk_slicer (containerName "slicer" page position),
        ← isOk_bind hrest, bind_assoc]

theorem isOk_ofPage (index : Nat) (page : Value) :
    (Section.ofPage index page).isOk = isLaidOut page := by
  rw [Section.ofPage, Value.isOk_getD_bind, isLaidOut]
  cases hobject : page.isObject with
  | false => rfl
  | true =>
      refine congrArg (true && ·) (Value.isOk_elements_bind isDrawable_text fun visuals => ?_)
      rw [← isOk_containersFrom "visual" index 0 visuals]
      refine isOk_bind fun containers => ?_
      rw [Value.isOk_getD_bind, hobject, Bool.true_and, ← Bool.and_true (Value.lists _ _)]
      refine Value.isOk_elements_bind isSlicer_text fun slicers => ?_
      rw [← isOk_slicersFrom index 0 slicers]
      refine isOk_bind fun slicers => ?_
      rw [isOk_bind_pure, Value.getD_of_isObject hobject]
      rfl

theorem isOk_sectionsFrom (index : Nat) (pages : List Value) :
    (sectionsFrom index pages).isOk = pages.all isLaidOut := by
  induction pages generalizing index with
  | nil => rfl
  | cons page pages ih =>
      have hpages (part : Section) : (sectionsFrom (index + 1) pages >>= fun parts =>
          pure (part :: parts)).isOk = pages.all isLaidOut := by
        rw [isOk_bind_pure, ih]
      rw [sectionsFrom, isOk_bind hpages, isOk_ofPage, List.all_cons]

end Report

end QlikMigration
