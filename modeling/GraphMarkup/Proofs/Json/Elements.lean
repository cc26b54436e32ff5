import GraphMarkup.Json.Basic
import GraphMarkup.Proofs.Markup.Trees
import GraphMarkup.Proofs.Session.Document
import GraphMarkup.Proofs.Walk.Given
import GraphMarkup.Proofs.Walk.Notes

/-!
# The elements of JSON values

* `Json.Portable` : JSON values that are written in full, and whose character data XML can carry;
* `Json.element` : the element of a JSON value under a name or none;
* `givesElement_json` : the walk over such a value gives its element, wherever it begins;
* `Json.Portable.becomes` : so it does over an item.
-/

namespace GraphMarkup

namespace Json

/-- JSON values that are written in full with some levels of properties left: no array and no object is reached with
none. Numbers are whole and fit 64 bits, with or without a sign, and strings and keys are such as XML can carry. -/
inductive Portable : Nat → Json → Prop
  | null (depth : Nat) : Portable depth .null
  | bool (depth : Nat) (value : Bool) : Portable depth (.bool value)
  | number (depth : Nat) {value : Int} (hmin : -Nat.pow 2 63 ≤ value) (hmax : value < Nat.pow 2 64) :
    Portable depth (.number (.integer value))
  | string (depth : Nat) {value : String} (hvalue : Markup.IsXmlText value) : Portable depth (.string value)
  | array {depth : Nat} {items : List Json} (hdepth : depth ≠ 0) (hitems : ∀ item ∈ items, Portable depth item) :
    Portable depth (.array items)
  | object {depth : Nat} {fields : List (String × Json)} (hdepth : depth ≠ 0)
    (hkeys : ∀ field ∈ fields, Markup.IsXmlText field.1) (hfields : ∀ field ∈ fields, Portable (depth - 1) field.2) :
    Portable depth (.object fields)

section

variable (policy : Policy)

def scalarElement (tag : String) (name : Option String) (s : Scalar) : Element :=
  { tag,
    attributes := nameAttributes policy name ++ typeAttributes policy (some (policy.knownTypes.typeNameOf s)),
    text := some (policy.knownTypes.textOf s) }

mutual

/-- The element of a JSON value under a name or none. -/
def element (tag : String) (name : Option String) : Json → Element
  | null => { tag, attributes := nameAttributes policy name ++ typeAttributes policy none }
  | bool value => scalarElement policy tag name (.bool value)
  | number value => scalarElement policy tag name (numberScalar value)
  | string value => scalarElement policy tag name (.string value)
  | array items =>
    { tag,
      attributes := nameAttributes policy name ++ typeAttributes policy (some ListKind.list.defaultTypeName),
      children := itemElements items }
  | object fields =>
    { tag, attributes := nameAttributes policy name ++ typeAttributes policy (some objectTypeName),
      children := fieldElements fields }

def itemElements : List Json → List Element
  | [] => []
  | item :: items => element policy.names.property none item :: itemElements items

def fieldElements : List (String × Json) → List Element
  | [] => []
  | (key, content) :: fields => element policy.names.property (some key) content :: fieldElements fields

end

end

end Json

open Json (Portable)

variable {policy : Policy} {depth levels : Nat}

/-! ## The walk over a JSON value -/

/-- A policy without hints, under which all scalars are known. -/
structure Policy.Typed (policy : Policy) : Prop where
  hints : policy.hints = []
  knows : ∀ s, policy.knownTypes.knows s = true

theorem Policy.Typed.classify_scalar (h : policy.Typed) (s : Scalar) (depth : Nat) :
    classify policy (.scalar s) depth = .scalar s := by
  simp only [classify, Strategy.leaf?, h.knows, if_true]

theorem classify_list (policy : Policy) (kind : ListKind) (typeName : Option String) (elements : Sequence Value)
    (properties : List (Property Value)) (hdepth : depth ≠ 0) :
    classify policy (.list kind typeName elements properties) depth = .container (.list kind elements) none := by
  simp only [classify, Strategy.leaf?, if_neg hdepth]
  rfl

theorem Policy.Typed.classify_object (h : policy.Typed) (typeName : String) (properties : List (Property Value))
    (display : Option (Fetch String)) (hdepth : depth ≠ 0) :
    classify policy (.object typeName properties display) depth = .complex := by
  rw [classify_of_base_eq_object rfl hdepth]
  exact expansion_of_no_hints rfl (Policy.hintsFor?_of_no_hints h.hints _)

theorem Policy.Typed.growSelection_object (h : policy.Typed) (inside : InsideElement) (typeName : String)
    (properties : List (Property Value)) (display : Option (Fetch String)) (depth : Nat) :
    growSelection policy inside (.object typeName properties display) depth =
      growProperties policy inside depth properties := by
  have hdepth : policy.depthFor (.object typeName properties display) depth = depth := by
    rw [Policy.depthFor, Policy.hintsFor?_of_no_hints h.hints]
    rfl
  rw [growSelection, hdepth, Policy.selection_of_no_hints h.hints]
  simp [Value.properties, Value.base, Value.notes, Value.ownProperties]

section Parts

variable {inside : InsideElement}

theorem givesInside_jsonItems {items : List Json}
    (h : ∀ item ∈ items, GivesElement policy none (fun tag => item.element policy tag none)
      (inside item.toValue none depth)) :
    GivesInside (Json.itemElements policy items)
      (gather (fun value => return [← inside value none depth]) (Json.toValues items)) := by
  induction items with
  | nil => exact givesInside_pure []
  | cons item items ih =>
    obtain ⟨hitem, hitems⟩ := List.forall_mem_cons.1 h
    exact hitem.one.join (ih hitems)

theorem eq_null_of_isNull_toValue {j : Json} (h : j.toValue.isNull = true) : j = .null := by
  cases j with
  | null => rfl
  | bool | number | string | array | object => cases h

theorem givesInside_jsonField {key : String} {content : Json}
    (h : GivesElement policy (some key) (fun tag => content.element policy tag (some key))
      (inside content.toValue (some key) depth)) :
    GivesInside (content.element policy policy.names.property (some key))
      (growProperty policy inside depth { name := key, value := .ready content.toValue }) := by
  have hread : Answers (.ok content.toValue) ((Fetch.ready content.toValue).read (.property key)) := fun _ => ⟨rfl, rfl⟩
  refine gives_poll.inside.bind (hread.gives.inside.bind ?_)
  by_cases hnull : content.toValue.isNull
  · obtain rfl := eq_null_of_isNull_toValue hnull
    exact givesInside_pure _
  · simp only [if_neg hnull]
    exact h.inside

theorem givesInside_jsonFields {fields : List (String × Json)}
    (h : ∀ field ∈ fields, GivesElement policy (some field.1) (fun tag => field.2.element policy tag (some field.1))
      (inside field.2.toValue (some field.1) (depth - 1))) :
    GivesInside (Json.fieldElements policy fields)
      (growProperties policy inside depth (Json.toProperties fields)) := by
  induction fields with
  | nil => exact givesInside_pure []
  | cons field fields ih =>
    obtain ⟨hfield, hfields⟩ := List.forall_mem_cons.1 h
    have hone : GivesInside [field.2.element policy policy.names.property (some field.1)] (do
        return [← growProperty policy inside (depth - 1) { name := field.1, value := .ready field.2.toValue }]) :=
      (givesInside_jsonField hfield).bind (givesInside_pure _)
    exact hone.join (ih hfields)

end Parts

theorem toValue_mem_toValues {item : Json} {items : List Json} (h : item ∈ items) :
    item.toValue ∈ Json.toValues items := by
  induction items with
  | nil => cases h
  | cons first items ih =>
    rcases List.mem_cons.1 h with rfl | h
    · exact List.mem_cons_self ..
    · exact List.mem_cons_of_mem _ (ih h)

theorem property_mem_toProperties {field : String × Json} {fields : List (String × Json)} (h : field ∈ fields) :
    { name := field.1, value := .ready field.2.toValue } ∈ Json.toProperties fields := by
  induction fields with
  | nil => cases h
  | cons first fields ih =>
    rcases List.mem_cons.1 h with rfl | h
    · exact List.mem_cons_self ..
    · exact List.mem_cons_of_mem _ (ih h)

/-- With as many levels as a value is high there is one for the value itself. -/
theorem GivesElement.within {value : Value} {name : Option String} {e : String → Element}
    (hlevels : value.height ≤ levels)
    (h : ∀ levels, value.height ≤ levels + 1 →
      GivesElement policy name e (growNode policy (growWithin policy levels) value name depth)) :
    GivesElement policy name e (growWithin policy levels value name depth) := by
  cases levels with
  | zero => exact absurd hlevels (Nat.not_le_of_gt value.height_pos)
  | succ levels => exact h levels hlevels

theorem givesElement_scalar (hpolicy : policy.Typed) (s : Scalar) (hlevels : (Value.scalar s).height ≤ levels)
    (name : Option String) (depth : Nat) :
    GivesElement policy name (fun tag => Json.scalarElement policy tag name s)
      (growWithin policy levels (.scalar s) name depth) := by
  refine GivesElement.within hlevels fun levels _ => gives_poll.then (gives_visit.then ?_)
  simp only [hpolicy.classify_scalar]
  exact givesElement_text policy name _ _

/-- The walk over a JSON value gives its element, wherever it begins. -/
theorem givesElement_json (hpolicy : policy.Typed) {j : Json} (hj : Portable depth j)
    (hlevels : j.toValue.height ≤ levels) (name : Option String) :
    GivesElement policy name (fun tag => j.element policy tag name)
      (growWithin policy levels j.toValue name depth) := by
  -- The depth is that of the induction, and the height of a value leaves a level for each value inside it.
  induction hj generalizing levels name with
  | null depth =>
    refine GivesElement.within hlevels fun levels _ => gives_poll.then (gives_visit.then ?_)
    exact (givesInside_pure []).around policy name none
  | bool depth value => exact givesElement_scalar hpolicy (.bool value) hlevels name depth
  | number depth _ _ => exact givesElement_scalar hpolicy (Json.numberScalar _) hlevels name depth
  | string depth _ => exact givesElement_scalar hpolicy (.string _) hlevels name depth
  | @array depth items hdepth _ ih =>
    refine GivesElement.within hlevels fun levels hlevels => gives_poll.then (gives_visit.then ?_)
    have hclass := classify_list policy .list none (.ready (Json.toValues items)) [] hdepth
    have hitems : GivesInside (Json.itemElements policy items)
        (gather (fun value => return [← growWithin policy levels value none depth]) (Json.toValues items)) := by
      refine givesInside_jsonItems fun item hitem => ih item hitem ?_ none
      have hlt : item.toValue.height < (Json.array items).toValue.height :=
        Value.height_lt_of_mem_children (List.mem_append_left _ (toValue_mem_toValues hitem))
      omega
    have hcontents := hitems.join (givesInside_pure [])
    rw [List.append_nil] at hcontents
    simp only [Json.toValue, hclass]
    exact hcontents.around policy name _
  | @object depth fields hdepth hkeys _ ih =>
    refine GivesElement.within hlevels fun levels hlevels => gives_poll.then (gives_visit.then ?_)
    have hclass := hpolicy.classify_object Json.objectTypeName (Json.toProperties fields) none hdepth
    have hselection := hpolicy.growSelection_object (growWithin policy levels) Json.objectTypeName
      (Json.toProperties fields) none depth
    have hfields : GivesInside (Json.fieldElements policy fields)
        (growProperties policy (growWithin policy levels) depth (Json.toProperties fields)) := by
      refine givesInside_jsonFields fun field hfield => ih field hfield ?_ (some field.1)
      have hlt : field.2.toValue.height < (Json.object fields).toValue.height :=
        Value.height_lt_of_mem_properties (List.mem_append_left _ (property_mem_toProperties hfield))
          (List.mem_singleton_self _)
      omega
    rw [← hselection] at hfields
    simp only [Json.toValue, hclass]
    exact hfields.around policy name _

/-- A JSON value is written as its element, with the tag of items. -/
theorem Json.Portable.becomes (hpolicy : policy.Typed) {j : Json} (hj : Portable policy.depth j) :
    j.toValue.Becomes policy (j.element policy policy.names.object none) := by
  intro run hrun
  obtain ⟨w, hgrow, hw⟩ := givesElement_json hpolicy hj (Nat.le_refl _) none { run }
    (by simp [hrun]) (fun hnone => absurd rfl hnone)
  exact ⟨w, hgrow, Bool.eq_false_iff.2 hw.running⟩

end GraphMarkup
