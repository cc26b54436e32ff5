import GraphMarkup.Proofs.Walk.Outline

/-!
# Properties that no selection lists

* `listed` : the properties of some names;
* `Value.ListedAlike` : two values that differ only in the own properties of objects of one type that are not listed;
* `Policy.Lists` : hints of a type that select the properties of these names;
* `Policy.Lists.selection_rel` : the selections of such values correspond;
* `write_eq_of_listedAlike` : such values are written by the same steps.

Every way to the properties of an object goes through the selection of its type, except for the string source, which
the hints must not set.
-/

namespace GraphMarkup

/-! ## Listed properties -/

def listed (names : List String) (ps : List (Property Value)) : List (Property Value) :=
  ps.filter fun p => names.contains p.name

/-- The first property of a listed name is the first of the name among the listed ones. -/
theorem find?_listed {names : List String} {name : String} (hname : name ∈ names) (ps : List (Property Value)) :
    (listed names ps).find? (fun p => p.name == name) = ps.find? fun p => p.name == name := by
  rw [listed, List.find?_filter]
  congr 1
  funext p
  by_cases hp : p.name = name
  · simp [hp, hname]
  · simp [hp]

/-- Values that differ only in the own properties of objects of the type `typeName` whose names are not listed. -/
inductive Value.ListedAlike (typeName : String) (names : List String) : Value → Value → Prop
  | null : Value.ListedAlike typeName names .null .null
  | scalar (scalar : Scalar) : Value.ListedAlike typeName names (.scalar scalar) (.scalar scalar)
  | enum (enumType name : String) (underlying : Scalar) :
    Value.ListedAlike typeName names (.enum enumType name underlying) (.enum enumType name underlying)
  | list (kind : ListKind) (listType : Option String) {elements elements' : Sequence Value}
    {properties properties' : List (Property Value)}
    (helements : elements.Rel (Value.ListedAlike typeName names) elements')
    (hproperties : List.Forall₂ (Property.Rel (Value.ListedAlike typeName names)) properties properties') :
    Value.ListedAlike typeName names (.list kind listType elements properties) (.list kind listType elements' properties')
  | dict (dictType : Option String) {entries entries' : Sequence (Value × Value)}
    (hentries : entries.Rel (EntryRel (Value.ListedAlike typeName names)) entries') :
    Value.ListedAlike typeName names (.dict dictType entries) (.dict dictType entries')
  | object (objectType : String) (display : Option (Fetch String)) {properties properties' : List (Property Value)}
    (hproperties : List.Forall₂ (Property.Rel (Value.ListedAlike typeName names)) properties properties') :
    Value.ListedAlike typeName names (.object objectType properties display) (.object objectType properties' display)
  /-- Of an object of the type only the listed properties need to correspond. -/
  | selected (display : Option (Fetch String)) {properties properties' : List (Property Value)}
    (hlisted : List.Forall₂ (Property.Rel (Value.ListedAlike typeName names)) (listed names properties)
      (listed names properties')) :
    Value.ListedAlike typeName names (.object typeName properties display) (.object typeName properties' display)
  | decorated (deserialized : Bool) {inner inner' : Value} {notes notes' : List (Property Value)}
    (hinner : Value.ListedAlike typeName names inner inner')
    (hnotes : List.Forall₂ (Property.Rel (Value.ListedAlike typeName names)) notes notes') :
    Value.ListedAlike typeName names (.decorated inner notes deserialized) (.decorated inner' notes' deserialized)

/-- A policy with hints for a type that select the properties of some names, and set no string source. -/
def Policy.Lists (policy : Policy) (typeName : String) (names : List String) : Prop :=
  ∃ hints, policy.typeHints? typeName = some hints ∧ hints.method = .properties names ∧ hints.stringSource = none

section

variable {typeName : String} {names : List String} {v v' : Value} {policy : Policy}

namespace Value.ListedAlike

theorem outline : KeepsOutline (ListedAlike typeName names) := by
  intro v v' h
  cases h with
  | null => exact .null
  | scalar scalar => exact .scalar scalar
  | enum enumType name underlying => exact .enum enumType name underlying
  | list kind listType helements hproperties => exact .list kind listType helements hproperties
  | dict dictType hentries => exact .dict dictType hentries
  | object objectType display => exact .object objectType display _ _
  | selected display => exact .object typeName display _ _
  | decorated deserialized hinner hnotes => exact .decorated deserialized hinner hnotes

theorem ownProperties (h : ListedAlike typeName names v v') (hother : ¬ v.IsObjectOf typeName) :
    List.Forall₂ (Property.Rel (ListedAlike typeName names)) v.ownProperties v'.ownProperties := by
  cases h with
  | list _ _ _ hproperties => exact hproperties
  | object _ _ hproperties => exact hproperties
  | selected => exact absurd rfl hother
  | null | scalar | enum | dict | decorated => exact .nil

/-- The properties of what is around no object of the type correspond. -/
theorem properties (h : ListedAlike typeName names v v') (hother : ¬ v.base.IsObjectOf typeName) :
    List.Forall₂ (Property.Rel (ListedAlike typeName names)) v.properties v'.properties :=
  List.rel_append ((outline.base h).ownProperties hother) (outline.notes h)

/-- The first properties of a listed name correspond. -/
theorem find?_ownProperties (h : ListedAlike typeName names v v') {name : String} (hname : name ∈ names) :
    Option.Rel (Property.Rel (ListedAlike typeName names)) (v.ownProperties.find? fun p => p.name == name)
      (v'.ownProperties.find? fun p => p.name == name) := by
  cases h with
  | list _ _ _ hproperties => exact find?_rel hproperties name
  | object _ _ hproperties => exact find?_rel hproperties name
  | @selected _ properties properties' hlisted =>
    show Option.Rel _ (properties.find? fun p => p.name == name) (properties'.find? fun p => p.name == name)
    rw [← find?_listed hname properties, ← find?_listed hname properties']
    exact find?_rel hlisted name
  | null | scalar | enum | dict | decorated => exact .none

theorem find?_properties (h : ListedAlike typeName names v v') {name : String} (hname : name ∈ names) :
    Option.Rel (Property.Rel (ListedAlike typeName names)) (v.properties.find? fun p => p.name == name)
      (v'.properties.find? fun p => p.name == name) := by
  have hown := (outline.base h).find?_ownProperties hname
  have hnotes := find?_rel (outline.notes h) name
  unfold Value.properties
  rw [List.find?_append, List.find?_append]
  generalize v.base.ownProperties.find? _ = own, v'.base.ownProperties.find? _ = own' at hown ⊢
  cases hown with
  | none => exact hnotes
  | some hp => exact .some hp

end Value.ListedAlike

open Value (ListedAlike)

namespace Policy.Lists

theorem stringSource?_eq_none (hlists : policy.Lists typeName names) (h : v.base.IsObjectOf typeName) :
    policy.stringSource? v = none := by
  obtain ⟨hints, hhints, -, hsource⟩ := hlists
  rw [Policy.stringSource?, h.hintsFor?_eq policy, hhints]
  exact hsource

/-- What is selected corresponds: of the type only what is listed, and of any other whatever its own hints say. -/
theorem selection_rel (hlists : policy.Lists typeName names) (h : ListedAlike typeName names v v') :
    List.Forall₂ (Property.Rel (ListedAlike typeName names)) (policy.selection v) (policy.selection v') := by
  have hmake : KeepsMake (ListedAlike typeName names) := ListedAlike.outline.keepsBase.keepsMake
  by_cases htype : v.base.IsObjectOf typeName
  · obtain ⟨hints, hhints, hmethod, -⟩ := hlists
    unfold Policy.selection
    rw [← Policy.hintsFor?_eq hmake h, htype.hintsFor?_eq policy, hhints, Option.map_some, hmethod]
    have hnames : List.Forall₂ (fun name name' => name = name' ∧ name ∈ names) names names :=
      List.forall₂_same.2 fun name hname => ⟨rfl, hname⟩
    refine List.rel_filterMap (fun name name' hname => ?_) hnames
    rw [← hname.1]
    exact h.find?_properties hname.2
  · exact GraphMarkup.selection_rel hmake h (h.properties htype)

theorem outlineWalks (hlists : policy.Lists typeName names) :
    OutlineWalks policy False (ListedAlike typeName names) where
  outline := ListedAlike.outline
  source _ _ h := ListedAlike.outline.keepsBase.sourceProperty?_rel h fun hsource =>
    h.properties fun htype => hsource (hlists.stringSource?_eq_none htype)
  parts inside inside' hinside v v' h depth _ := by
    have hkeeps : KeepsBase (ListedAlike typeName names) := ListedAlike.outline.keepsBase
    have hselection : Agree False (writeSelection policy inside v depth) (writeSelection policy inside' v' depth) :=
      agree_selection hkeeps.keepsMake hinside h (hlists.selection_rel h)
    exact hkeeps.agree_parts hinside (ListedAlike.outline.parallel h) (fun _ => hselection)
      fun _ => .inl (agree_promoted hkeeps hinside h hselection)

end Policy.Lists

/-- If the hints of a type list the properties to write and set no string source, then the own properties of its objects
that are not listed have no influence: values that differ in nothing else are written by the same steps, from any state. -/
theorem write_eq_of_listedAlike (hlists : policy.Lists typeName names) (h : v.ListedAlike typeName names v')
    (name : Option String) (depth : Nat) (w : Walker) : write policy v name depth w = write policy v' name depth w := by
  rcases hlists.outlineWalks.agree_write h name depth w with ⟨hsame, -⟩ | ⟨hexcused, -⟩
  · exact hsame
  · exact hexcused.elim

/-- A user in a list, under a chain of decorators that is promoted: what is listed is the identity, so that it
makes no difference whether there is a pin to be computed, which fails to be at first, or a name in front. -/
theorem write_eq_of_listedAlike_users :
    (({} : Policy).withHints "User" { method := .properties ["id"] }).Lists "User" ["id"] ∧
      write (({} : Policy).withHints "User" { method := .properties ["id"] })
          (.list .list none (.ready [.decorated (.decorated (.object "User" [⟨"id", none, .ready (.scalar (.string "7"))⟩,
            ⟨"pin", none, .deferred ⟨1, .error "locked", [.ok (.scalar (.string "1234"))], some 1⟩⟩] none)
            [⟨"seen", none, .ready .null⟩] false) [] false]) []) none 2 {} =
        write (({} : Policy).withHints "User" { method := .properties ["id"] })
          (.list .list none (.ready [.decorated (.decorated (.object "User" [⟨"name", some "String", .failed "gone"⟩,
            ⟨"id", none, .ready (.scalar (.string "7"))⟩] none) [⟨"seen", none, .ready .null⟩] false) [] false]) [])
          none 2 {} := by
  have hlists : (({} : Policy).withHints "User" { method := .properties ["id"] }).Lists "User" ["id"] :=
    ⟨_, Policy.typeHints?_withHints_self .., rfl, rfl⟩
  have hid : List.Forall₂ (Property.Rel (ListedAlike "User" ["id"])) [⟨"id", none, .ready (.scalar (.string "7"))⟩]
      [⟨"id", none, .ready (.scalar (.string "7"))⟩] :=
    .cons (.intro "id" none (.ready (.scalar _))) .nil
  have hseen : List.Forall₂ (Property.Rel (ListedAlike "User" ["id"])) [⟨"seen", none, .ready .null⟩]
      [⟨"seen", none, .ready .null⟩] :=
    .cons (.intro "seen" none (.ready .null)) .nil
  refine ⟨hlists, write_eq_of_listedAlike hlists ?_ none 2 {}⟩
  exact .list .list none (.ready (.cons (.decorated false (.decorated false (.selected none hid) hseen) .nil) .nil)) .nil

end

end GraphMarkup
