import GraphMarkup.Proofs.Json.Elements
import Mathlib

/-!
# JSON values read back

* `TypeTable.Supplied` : the two tables that come with the library;
* `Json.text_number` : a whole number that fits 64 bits is written in decimal, whichever scalar it becomes;
* `Element.json` : the JSON value that an element stands for;
* `json_element` : it is the one whose element it is;
* `toXml_json_injective` : the JSON values of a document are known from its text.

Names of types tell arrays, objects, strings, truth values and numbers apart, and null has none. So an empty element is
null, an empty array or an empty object, and no number is taken for another.
-/

namespace GraphMarkup

open Json (Portable numberScalar)

def TypeTable.Supplied (table : TypeTable) : Prop := table = .plain ∨ table = .dotnet

variable {table : TypeTable} {depth : Nat}

/-! ## Texts and type names -/

theorem Json.text_number {value : Int} (hmin : -Nat.pow 2 63 ≤ value) (hmax : value < Nat.pow 2 64) :
    (numberScalar (.integer value)).text = value.repr := by
  by_cases hsigned : value < Nat.pow 2 63
  · have hscalar : numberScalar (.integer value) = .int64 (Int64.ofInt value) := if_pos hsigned
    rw [hscalar, Scalar.text, Int64.toInt_ofInt_of_le hmin hsigned]
  · have hscalar : numberScalar (.integer value) = .nat64 (UInt64.ofNat value.toNat) := if_neg hsigned
    have hfits : value.toNat < UInt64.size := by
      have hsize : UInt64.size = Nat.pow 2 64 := rfl
      omega
    have hpos : 0 ≤ value := by omega
    rw [hscalar, Scalar.text, UInt64.toNat_ofNat_of_lt' hfits, Int.repr_eq_if, if_pos hpos]

theorem isXmlText_natRepr (n : Nat) : Markup.IsXmlText n.repr := by
  intro c hc
  rw [Nat.toList_repr] at hc
  have hdigit := Nat.isDigit_of_mem_toDigits (by decide) (by decide) hc
  simp only [Char.isDigit, Bool.and_eq_true, decide_eq_true_eq] at hdigit
  have hlow : 48 ≤ c.toNat := hdigit.1
  have hhigh : c.toNat ≤ 57 := hdigit.2
  have hrange : 0x20 ≤ c.toNat ∧ c.toNat ≤ 0xD7FF := by omega
  simp [Markup.isXmlChar, hrange]

theorem isXmlText_intRepr (value : Int) : Markup.IsXmlText value.repr := by
  rw [Int.repr_eq_if]
  split
  · exact isXmlText_natRepr _
  · intro c hc
    rw [String.toList_append] at hc
    rcases List.mem_append.1 hc with hc | hc
    · obtain rfl : c = '-' := by simpa using hc
      decide
    · exact isXmlText_natRepr _ c hc

theorem TypeTable.Supplied.isXmlText_typeNameOf (h : table.Supplied) (s : Scalar) :
    Markup.IsXmlText (table.typeNameOf s) := by
  have hplain : ∀ k ∈ ScalarKind.all, Markup.IsXmlText (TypeTable.plainName k) := by decide
  have hdotnet : ∀ k ∈ ScalarKind.all, Markup.IsXmlText (TypeTable.dotnetName k) := by decide
  rcases h with rfl | rfl
  · exact hplain s.kind s.kind.mem_all
  · exact hdotnet s.kind s.kind.mem_all

theorem TypeTable.Supplied.textOf_bool (h : table.Supplied) (value : Bool) :
    Markup.IsXmlText (table.textOf (.bool value)) := by
  rcases h with rfl | rfl <;> cases value <;> decide

/-- Truth values apart, both tables write plain text. -/
theorem TypeTable.Supplied.textOf_number (h : table.Supplied) (number : JsonNumber) :
    table.textOf (numberScalar number) = (numberScalar number).text := by
  rcases h with rfl | rfl
  · rfl
  · unfold Json.numberScalar
    split
    · split <;> rfl
    · rfl

/-! ## Plain elements -/

/-- The policies under which documents are compared: names, type names and hints are as they are by default. -/
abbrev Policy.converting (table : TypeTable) (depth : Nat) : Policy := { depth, knownTypes := table }

theorem TypeTable.Supplied.typed (h : table.Supplied) (depth : Nat) : (Policy.converting table depth).Typed := by
  refine ⟨rfl, fun s => ?_⟩
  rcases h with rfl | rfl <;> rfl

section Plain

variable {tag : String} {name : Option String} {d : Nat}

theorem plain_attributes (hname : ∀ n ∈ name, Markup.IsXmlText n) {typeName : Option String}
    (htype : ∀ t ∈ typeName, Markup.IsXmlText t) :
    ∀ a ∈ nameAttributes (.converting table d) name ++ typeAttributes (.converting table d) typeName,
      IsName a.1 ∧ Markup.IsXmlText a.2 := by
  refine List.forall_mem_append.2 ⟨?_, ?_⟩
  · cases name with
    | none => exact List.forall_mem_nil _
    | some name => exact List.forall_mem_singleton.2 ⟨show IsName "Name" by decide, hname name rfl⟩
  · cases typeName with
    | none => exact List.forall_mem_nil _
    | some typeName => exact List.forall_mem_singleton.2 ⟨show IsName "Type" by decide, htype typeName rfl⟩

theorem plain_scalarElement (htable : table.Supplied) (htag : IsName tag) (hname : ∀ n ∈ name, Markup.IsXmlText n)
    {s : Scalar} (htext : Markup.IsXmlText (table.textOf s)) :
    (Json.scalarElement (.converting table d) tag name s).All Element.Plain := by
  refine .intro ⟨htag, plain_attributes hname ?_, ?_⟩ (List.forall_mem_nil _)
  · rintro _ ⟨⟩
    exact htable.isXmlText_typeNameOf s
  · rintro _ ⟨⟩
    exact htext

theorem forall_mem_itemElements {P : Element → Prop} {policy : Policy} {items : List Json}
    (h : ∀ item ∈ items, P (item.element policy policy.names.property none)) :
    ∀ e ∈ Json.itemElements policy items, P e := by
  induction items with
  | nil => exact List.forall_mem_nil _
  | cons item items ih =>
    obtain ⟨hitem, hitems⟩ := List.forall_mem_cons.1 h
    exact List.forall_mem_cons.2 ⟨hitem, ih hitems⟩

theorem forall_mem_fieldElements {P : Element → Prop} {policy : Policy} {fields : List (String × Json)}
    (h : ∀ field ∈ fields, P (field.2.element policy policy.names.property (some field.1))) :
    ∀ e ∈ Json.fieldElements policy fields, P e := by
  induction fields with
  | nil => exact List.forall_mem_nil _
  | cons field fields ih =>
    obtain ⟨hfield, hfields⟩ := List.forall_mem_cons.1 h
    exact List.forall_mem_cons.2 ⟨hfield, ih hfields⟩

/-- XML can carry the element of a JSON value. -/
theorem plain_element (htable : table.Supplied) {j : Json} (hj : Portable depth j) (htag : IsName tag)
    (hname : ∀ n ∈ name, Markup.IsXmlText n) : (j.element (.converting table d) tag name).All Element.Plain := by
  have hproperty : IsName (Policy.converting table d).names.property := show IsName "Property" by decide
  induction hj generalizing tag name with
  | null depth => exact .intro ⟨htag, plain_attributes hname nofun, nofun⟩ (List.forall_mem_nil _)
  | bool depth value => exact plain_scalarElement htable htag hname (htable.textOf_bool value)
  | number depth hmin hmax =>
    refine plain_scalarElement htable htag hname ?_
    rw [htable.textOf_number, Json.text_number hmin hmax]
    exact isXmlText_intRepr _
  | string depth hvalue =>
    refine plain_scalarElement htable htag hname ?_
    rcases htable with rfl | rfl <;> exact hvalue
  | @array depth items _ _ ih =>
    refine .intro ⟨htag, plain_attributes hname ?_, nofun⟩ (forall_mem_itemElements fun item hitem => ?_)
    · rintro _ ⟨⟩
      decide
    · exact ih item hitem hproperty nofun
  | @object depth fields _ hkeys _ ih =>
    refine .intro ⟨htag, plain_attributes hname ?_, nofun⟩ (forall_mem_fieldElements fun field hfield => ?_)
    · rintro _ ⟨⟩
      decide
    · refine ih field hfield hproperty ?_
      rintro _ ⟨⟩
      exact hkeys field hfield

end Plain

/-! ## Reading elements -/

namespace Element

mutual

/-- The JSON value that an element stands for, as its type name tells. -/
def json (table : TypeTable) : Element → Json
  | ⟨_, attributes, text, children⟩ =>
    match attributes.lookup ({} : ElementNames).typeAttribute with
    | none => .null
    | some typeName =>
      if typeName = ListKind.list.defaultTypeName then .array (jsonItems table children)
      else if typeName = Json.objectTypeName then .object (jsonFields table children)
      else if typeName = table.typeNameOf (.string "") then .string (text.getD "")
      else if typeName = table.typeNameOf (.bool true) then .bool (text == some (table.textOf (.bool true)))
      else .number (.integer ((text.bind String.toInt?).getD 0))

def jsonItems (table : TypeTable) : List Element → List Json
  | [] => []
  | e :: es => json table e :: jsonItems table es

def jsonFields (table : TypeTable) : List Element → List (String × Json)
  | [] => []
  | e :: es => ((e.attribute? ({} : ElementNames).nameAttribute).getD "", json table e) :: jsonFields table es

end

end Element

section Reading

variable {tag : String} {name : Option String} {d : Nat}

theorem lookup_typeAttribute (table : TypeTable) (d : Nat) (name typeName : Option String) :
    (nameAttributes (.converting table d) name ++ typeAttributes (.converting table d) typeName).lookup
      ({} : ElementNames).typeAttribute = typeName := by
  cases name <;> cases typeName <;> rfl

/-- The type names of numbers are those of no other JSON values. -/
theorem TypeTable.Supplied.typeNameOf_number (htable : table.Supplied) (value : Int) :
    table.typeNameOf (numberScalar (.integer value)) ∉
      [ListKind.list.defaultTypeName, Json.objectTypeName, table.typeNameOf (.string ""),
        table.typeNameOf (.bool true)] := by
  have hkind : (numberScalar (.integer value)).kind = .int64 ∨ (numberScalar (.integer value)).kind = .nat64 := by
    by_cases hsigned : value < Nat.pow 2 63
    · exact .inl (congrArg Scalar.kind (if_pos hsigned))
    · exact .inr (congrArg Scalar.kind (if_neg hsigned))
  rcases htable with rfl | rfl
  · show TypeTable.plainName (numberScalar (.integer value)).kind ∉ _
    rcases hkind with hkind | hkind <;> rw [hkind] <;> decide
  · show TypeTable.dotnetName (numberScalar (.integer value)).kind ∉ _
    rcases hkind with hkind | hkind <;> rw [hkind] <;> decide

theorem json_scalar (htable : table.Supplied) {j : Json} {s : Scalar}
    (hj : Portable depth j) (hs : j.toValue = .scalar s) :
    (Json.scalarElement (.converting table d) tag name s).json table = j := by
  rw [Json.scalarElement, Element.json, lookup_typeAttribute]
  cases hj with
  | null | array | object => cases hs
  | bool depth value =>
    cases hs
    rcases htable with rfl | rfl <;> cases value <;> rfl
  | string depth hvalue =>
    cases hs
    rcases htable with rfl | rfl <;> rfl
  | @number depth value hmin hmax =>
    cases hs
    have htype := htable.typeNameOf_number value
    simp only [List.mem_cons, List.not_mem_nil, or_false, not_or] at htype
    obtain ⟨hlist, hobject, hstring, hbool⟩ := htype
    simp only [if_neg hlist, if_neg hobject, if_neg hstring, if_neg hbool, htable.textOf_number,
      Json.text_number hmin hmax]
    simp [Int.toInt?_repr]

theorem jsonItems_itemElements {policy : Policy} {items : List Json}
    (h : ∀ item ∈ items, (item.element policy policy.names.property none).json table = item) :
    Element.jsonItems table (Json.itemElements policy items) = items := by
  induction items with
  | nil => rfl
  | cons item items ih =>
    obtain ⟨hitem, hitems⟩ := List.forall_mem_cons.1 h
    rw [Json.itemElements, Element.jsonItems, hitem, ih hitems]

theorem attribute?_name (j : Json) (table : TypeTable) (d : Nat) (tag key : String) :
    (j.element (.converting table d) tag (some key)).attribute? ({} : ElementNames).nameAttribute = some key := by
  cases j <;> rfl

theorem jsonFields_fieldElements {fields : List (String × Json)}
    (h : ∀ field ∈ fields,
      (field.2.element (.converting table d) (Policy.converting table d).names.property (some field.1)).json table =
        field.2) :
    Element.jsonFields table (Json.fieldElements (.converting table d) fields) = fields := by
  induction fields with
  | nil => rfl
  | cons field fields ih =>
    obtain ⟨hfield, hfields⟩ := List.forall_mem_cons.1 h
    rw [Json.fieldElements, Element.jsonFields, hfield, ih hfields, attribute?_name]
    rfl

/-- A JSON value is the one that its element stands for. -/
theorem json_element (htable : table.Supplied) {j : Json} (hj : Portable depth j) (tag : String)
    (name : Option String) : (j.element (.converting table d) tag name).json table = j := by
  induction hj generalizing tag name with
  | null depth =>
    rw [Json.element, Element.json, lookup_typeAttribute]
  | bool depth value => exact json_scalar htable (.bool depth value) rfl
  | number depth hmin hmax => exact json_scalar htable (.number depth hmin hmax) rfl
  | string depth hvalue => exact json_scalar htable (.string depth hvalue) rfl
  | @array depth items _ _ ih =>
    rw [Json.element, Element.json, lookup_typeAttribute]
    exact congrArg Json.array (jsonItems_itemElements fun item hitem => ih item hitem _ _)
  | @object depth fields _ _ _ ih =>
    rw [Json.element, Element.json, lookup_typeAttribute]
    exact congrArg Json.object (jsonFields_fieldElements fun field hfield => ih field hfield _ _)

theorem json_elements (htable : table.Supplied) {js : List Json} (hjs : ∀ j ∈ js, Portable depth j) :
    (js.map fun j => j.element (.converting table d) tag name).map (Element.json table) = js := by
  rw [List.map_map]
  exact (List.map_congr_left fun j hj => json_element htable (hjs j hj) tag name).trans (List.map_id js)

end Reading

/-! ## Documents -/

theorem becomeDocument_json (htable : table.Supplied) (hdepth : depth ≠ 0) {js : List Json}
    (hjs : ∀ j ∈ js, Portable depth j) :
    BecomeDocument (.converting table depth) (js.map Json.toValue)
      (js.map fun j => j.element (.converting table depth) ({} : ElementNames).object none) where
  valid := by
    have hvalid : Policy.validateDepth depth = .ok () := if_neg (by omega)
    have hnames : ElementNames.validate {} = .ok () := by decide
    show (do Policy.validateDepth depth; ElementNames.validate {}) = Except.ok ()
    rw [hvalid, hnames]
    rfl
  root := show IsName "Objects" by decide
  items := by
    rw [List.forall₂_map_left_iff, List.forall₂_map_right_iff, List.forall₂_same]
    exact fun j hj => (hjs j hj).becomes (htable.typed depth)
  plain := by
    intro e he
    obtain ⟨j, hj, rfl⟩ := List.mem_map.1 he
    exact plain_element htable (hjs j hj) (by decide) nofun

/-- The JSON values of a document are known from its text: two lists of them that are written in full, with the types
of a table that comes with the library, are the same if their texts are. -/
theorem toXml_json_injective (htable : table = .plain ∨ table = .dotnet) {depth depth' : Nat} (hdepth : depth ≠ 0)
    (hdepth' : depth' ≠ 0) {js js' : List Json} (hjs : ∀ j ∈ js, Portable depth j)
    (hjs' : ∀ j ∈ js', Portable depth' j) :
    ∃ xml xml', (toXml { depth, knownTypes := table } (js.map Json.toValue)).1 = .ok xml ∧
      (toXml { depth := depth', knownTypes := table } (js'.map Json.toValue)).1 = .ok xml' ∧
      (xml = xml' → js = js') := by
  have hdocument := becomeDocument_json htable hdepth hjs
  have hdocument' := becomeDocument_json htable hdepth' hjs'
  obtain ⟨xml, hxml, -⟩ := hdocument.toXml_eq
  obtain ⟨xml', hxml', -⟩ := hdocument'.toXml_eq
  refine ⟨xml, xml', hxml, hxml', ?_⟩
  rintro rfl
  -- One text has one list of elements, and each value is read back from its own.
  have helements := congrArg (List.map (Element.json table)) (hdocument.elements_eq hdocument' hxml hxml')
  exact (json_elements htable hjs).symm.trans (helements.trans (json_elements htable hjs'))

/-- An array of null and an empty string next to one of an empty array and an empty object, and two numbers of which
each is the other in 64 bits. -/
theorem toXml_json_ne :
    ∃ xml xml',
      (toXml { depth := 2, knownTypes := .dotnet } ([.array [.null, .string ""],
        .object [("key", .number (.integer (2 ^ 64 - 1)))]].map Json.toValue)).1 = .ok xml ∧
      (toXml { depth := 3, knownTypes := .dotnet } ([.array [.array [], .object []],
        .object [("key", .number (.integer (-1)))]].map Json.toValue)).1 = .ok xml' ∧ xml ≠ xml' := by
  have hnothing : Portable 2 (.array [.null, .string ""]) :=
    .array (by decide) (List.forall_mem_cons.2 ⟨.null 2, List.forall_mem_singleton.2 (.string 2 (by decide))⟩)
  have hnothing' : Portable 3 (.array [.array [], .object []]) :=
    .array (by decide) (List.forall_mem_cons.2 ⟨.array (by decide) (List.forall_mem_nil _),
      List.forall_mem_singleton.2 (.object (by decide) (List.forall_mem_nil _) (List.forall_mem_nil _))⟩)
  have hobject (depth : Nat) (value : Int) (hmin : -Nat.pow 2 63 ≤ value) (hmax : value < Nat.pow 2 64) :
      Portable (depth + 1) (.object [("key", .number (.integer value))]) :=
    .object (Nat.succ_ne_zero depth) (List.forall_mem_singleton.2 (show Markup.IsXmlText "key" by decide))
      (List.forall_mem_singleton.2 (.number depth hmin hmax))
  obtain ⟨xml, xml', hxml, hxml', heq⟩ := toXml_json_injective (.inr rfl) (by decide) (by decide)
    (List.forall_mem_cons.2 ⟨hnothing, List.forall_mem_singleton.2 (hobject 1 (2 ^ 64 - 1) (by decide) (by decide))⟩)
    (List.forall_mem_cons.2 ⟨hnothing', List.forall_mem_singleton.2 (hobject 2 (-1) (by decide) (by decide))⟩)
  exact ⟨xml, xml', hxml, hxml', fun h => absurd (heq h) (by simp)⟩

end GraphMarkup
