import GraphMarkup.Proofs.Session.Failure
import GraphMarkup.Proofs.Session.Protocol
import GraphMarkup.Proofs.Walk.Grammar

/-!
# The vocabulary of what is written

* `Session.serialize_writes_item` : what the walk over an item records are the events of one item's element;
* `Element.Distinct` : an element without two attributes of one name;
* `attributes_distinct_iff` : a policy that can be used gives no others exactly if it tells names from types.

Keys and values of dictionaries have to have different names, but names and types of elements need not. A policy may
use one attribute for both.
-/

namespace GraphMarkup

/-! ## The grammar of items -/

/-- The grammar of the output. If an item is serialized successfully, what the walk over it has recorded are the events
of one element, which has the tag of items and at most a type name for an attribute. Every element inside it has the tag
of properties, at most a name and at most a type name for attributes, in this order. None has both a text and
children. -/
theorem Session.serialize_writes_item {ω : Type} [Writer ω] {s s' : Session ω} {value : Value}
    (h : serialize value s = .ok () s') :
    ∃ e recorder nodes s₁, s.walk value = .ok (recorder, nodes) s₁ ∧ recorder.events.toList = e.events ∧
      s.itemElement? value = some e ∧ e.IsItem s.policy := by
  obtain ⟨hphase, e, w, hgrow⟩ := exists_grow_of_serialize h
  refine ⟨e, _, _, _, walk_of_grow_ok hgrow, ?_, itemElement?_of_grow_ok hphase hgrow, grow_isItem rfl hgrow⟩
  rw [Recorder.events_append]
  simp

/-- An object with a property that cannot be read, and a scalar with a dictionary for a note. -/
theorem Session.serialize_writes_item_of_person :
    ∃ (v : Value) (s₀ s' : Session Recorder),
      v = .object "Person" [⟨"age", some "i32", .deferred { id := 0, first := .error "busy" }⟩,
        ⟨"known", none, .ready (.decorated (.scalar (.bool true))
          [⟨"by", none, .ready (.dict none (.stepped 1 [⟨.ok (.null, .scalar (.char 'x')), false⟩]))⟩] false)⟩] none ∧
      create ({} : Recorder) { depth := 3 } .document = .ok s₀ ∧ serialize v s₀ = .ok () s' ∧
      ∃ e recorder nodes s₁, s₀.walk v = .ok (recorder, nodes) s₁ ∧ recorder.events.toList = e.events ∧
        s₀.itemElement? v = some e ∧ e.IsItem s₀.policy := by
  have hruns : ((serialize (.object "Person" [⟨"age", some "i32", .deferred { id := 0, first := .error "busy" }⟩,
      ⟨"known", none, .ready (.decorated (.scalar (.bool true))
        [⟨"by", none, .ready (.dict none (.stepped 1 [⟨.ok (.null, .scalar (.char 'x')), false⟩]))⟩] false)⟩] none)).run'
      (({ writer := {}, policy := { depth := 3 }, layout := .document } : Session Recorder).note
        (.sessionStarted .document 3 true))).isSome := by
    decide +kernel
  obtain ⟨⟨⟩, s', hserialize⟩ := exists_ok_of_run' hruns
  exact ⟨_, _, s', rfl, rfl, hserialize, serialize_writes_item hserialize⟩

/-! ## Attributes of one name -/

variable {policy : Policy} {e : Element}

/-- What is under a key that occurs once is found. -/
theorem lookup_eq_some_of_mem {key value : String} {as : List (String × String)} (hnodup : (as.map Prod.fst).Nodup)
    (h : (key, value) ∈ as) : as.lookup key = some value := by
  induction as with
  | nil => cases h
  | cons a as ih =>
    obtain ⟨hfirst, hrest⟩ := List.nodup_cons.1 hnodup
    rcases List.mem_cons.1 h with rfl | h
    · exact List.lookup_cons_self
    · have hne : key ≠ a.1 := by
        rintro rfl
        exact hfirst (List.mem_map.2 ⟨_, h, rfl⟩)
      rw [List.lookup_cons, beq_eq_false_iff_ne.2 hne]
      exact ih hrest h

/-- An element without two attributes of one name, in which a type name is found if there is one. -/
structure Element.Distinct (policy : Policy) (e : Element) : Prop where
  nodup : (e.attributes.map Prod.fst).Nodup
  typeName : ∀ typeName, (policy.names.typeAttribute, typeName) ∈ e.attributes →
    e.attribute? policy.names.typeAttribute = some typeName

theorem Element.distinct_of_attributes
    (hnames : policy.includeTypeNames = true → policy.names.nameAttribute ≠ policy.names.typeAttribute)
    {name typeName : Option String} (h : e.attributes = nameAttributes policy name ++ typeAttributes policy typeName) :
    e.Distinct policy := by
  have hnodup : (e.attributes.map Prod.fst).Nodup := by
    rw [h]
    by_cases hinclude : policy.includeTypeNames
    · have hne := hnames hinclude
      cases name <;> cases typeName <;> simp [nameAttributes, typeAttributes, hinclude, hne]
    · cases name <;> cases typeName <;> simp [nameAttributes, typeAttributes, hinclude]
  exact ⟨hnodup, fun _ => lookup_eq_some_of_mem hnodup⟩

theorem Element.IsItem.distinct (h : e.IsItem policy)
    (hnames : policy.includeTypeNames = true → policy.names.nameAttribute ≠ policy.names.typeAttribute) :
    e.All (Element.Distinct policy) := by
  obtain ⟨typeName, hattributes⟩ := h.attributes
  have hown : e.attributes = nameAttributes policy none ++ typeAttributes policy typeName := hattributes
  refine .intro (distinct_of_attributes hnames hown) fun c hc => (h.inside c hc).mono fun c hc => ?_
  obtain ⟨name, typeName, hattributes⟩ := hc.attributes
  exact distinct_of_attributes hnames hattributes

/-- A dictionary whose only key is a list. Under any policy the key has both a name and a type. -/
def Value.keyedByList : Value := .dict none (.ready [(.list .list none (.ready []) [], .null)])

theorem grow_keyedByList (hdepth : policy.depth ≠ 0) (hinclude : policy.includeTypeNames = true) {run : Run}
    (hrunning : run.stopped = false) :
    ∃ w, grow policy .keyedByList none policy.depth { run } =
      .ok
        { tag := policy.names.object, attributes := [(policy.names.typeAttribute, "Map")],
          children :=
            [{ tag := policy.names.property,
               attributes := [(policy.names.nameAttribute, policy.names.key), (policy.names.typeAttribute, "Vec")] },
              { tag := policy.names.property, attributes := [(policy.names.nameAttribute, policy.names.value)] }] }
        w := by
  have hlist : (Value.list .list none (.ready []) []).height = 1 := by
    rw [Value.height]
    rfl
  have hnull : Value.null.height = 1 := by
    rw [Value.height]
    rfl
  have hheight : Value.keyedByList.height = 2 := by
    rw [Value.height]
    show 1 + max (Value.list .list none (.ready []) []).height (max Value.null.height 0) = 2
    rw [hlist, hnull]
    rfl
  obtain ⟨depth, includeTypeNames, names, knownTypes, hints⟩ := policy
  obtain ⟨reads, stopped, journal⟩ := run
  obtain rfl : includeTypeNames = true := hinclude
  obtain rfl : stopped = false := hrunning
  cases depth with
  | zero => exact absurd rfl hdepth
  | succ depth =>
    rw [grow, hheight]
    exact ⟨_, rfl⟩

theorem Policy.depth_ne_zero (h : policy.validate = .ok ()) : policy.depth ≠ 0 := by
  intro hdepth
  unfold Policy.validate Policy.validateDepth at h
  rw [hdepth] at h
  cases h

namespace Session

/-- No element that is written has two attributes of one name, whatever the values, exactly if types of elements are
left out or have another attribute than names. -/
theorem attributes_distinct_iff (hpolicy : policy.validate = .ok ()) :
    (∀ (ω : Type) [Writer ω] (writer : ω) (layout : Layout) (s₀ s' : Session ω) (calls : List Call) (value : Value)
      (e : Element), create writer policy layout = .ok s₀ → serialize value (s₀.after calls) = .ok () s' →
        (s₀.after calls).itemElement? value = some e → e.All (Element.Distinct policy)) ↔
      (policy.includeTypeNames = true → policy.names.nameAttribute ≠ policy.names.typeAttribute) := by
  constructor
  · intro hdistinct hinclude heq
    -- The key of this dictionary has both a name and a type, whatever the policy.
    have hcreate : create ({} : Recorder) policy .stream =
        .ok (({ writer := {}, policy, layout := .stream } : Session Recorder).note
          (.sessionStarted .stream policy.depth policy.includeTypeNames)) := by
      rw [create, hpolicy]
    obtain ⟨hledger, hphase⟩ := Ledger.created hcreate
    have hrunning : (Run.note (.sessionStarted .stream policy.depth policy.includeTypeNames) {}).stopped = false := rfl
    obtain ⟨w, hgrow⟩ := grow_keyedByList (Policy.depth_ne_zero hpolicy) hinclude hrunning
    obtain ⟨s', hserialize, -⟩ := hledger.serialize_ok hphase hgrow
    have hitem := hdistinct Recorder {} .stream _ s' [] .keyedByList _ hcreate hserialize
      (itemElement?_of_grow_ok hphase hgrow)
    have hkey := (hitem.inside _ (List.mem_cons_self ..)).here.nodup
    simp [heq] at hkey
  · intro hnames ω _ writer layout s₀ s' calls value e hcreate hserialize hitem
    have hs : (s₀.after calls).policy = policy := by
      rw [after_policy]
      simp only [create, hpolicy] at hcreate
      cases hcreate
      rfl
    obtain ⟨hphase, e', w, hgrow⟩ := exists_grow_of_serialize hserialize
    obtain rfl : e = e' := Option.some.inj (hitem.symm.trans (itemElement?_of_grow_ok hphase hgrow))
    rw [← hs] at hnames ⊢
    exact (grow_isItem rfl hgrow).distinct hnames

/-- Under the names that a policy has by default no attribute occurs twice. -/
theorem attributes_distinct_of_default_names :
    ({} : Policy).validate = .ok () ∧ ∀ (ω : Type) [Writer ω] (writer : ω) (layout : Layout) (s₀ s' : Session ω)
      (calls : List Call) (value : Value) (e : Element), create writer {} layout = .ok s₀ →
        serialize value (s₀.after calls) = .ok () s' → (s₀.after calls).itemElement? value = some e →
          e.All (Element.Distinct {}) :=
  ⟨rfl, (attributes_distinct_iff rfl).2 fun _ => by decide⟩

/-- A policy that can be used, with one attribute for names and types: a property has it twice, and its type is not
found. -/
theorem duplicate_type_attribute :
    ∃ (policy : Policy) (v : Value) (s₀ s' : Session Recorder) (e : Element),
      policy = { names := { nameAttribute := "Type" } } ∧ policy.validate = .ok () ∧
      v = .object "Point" [⟨"x", none, .ready (.scalar (.int32 1))⟩] none ∧
      create ({} : Recorder) policy .document = .ok s₀ ∧ serialize v s₀ = .ok () s' ∧ s₀.itemElement? v = some e ∧
      e = ⟨"Object", [("Type", "Point")], none, [⟨"Property", [("Type", "x"), ("Type", "i32")], some "1", []⟩]⟩ ∧
      ¬ e.All (Element.Distinct policy) := by
  have hscalar : (Value.scalar (.int32 1)).height = 1 := by
    rw [Value.height]
    rfl
  have hheight : (Value.object "Point" [⟨"x", none, .ready (.scalar (.int32 1))⟩] none).height = 2 := by
    rw [Value.height]
    show 1 + max (Value.scalar (.int32 1)).height 0 = 2
    rw [hscalar]
    rfl
  have hgrow (journal : Array Entry) : ∃ w, grow { names := { nameAttribute := "Type" } }
      (.object "Point" [⟨"x", none, .ready (.scalar (.int32 1))⟩] none) none 1 { run := { journal } } =
      .ok ⟨"Object", [("Type", "Point")], none, [⟨"Property", [("Type", "x"), ("Type", "i32")], some "1", []⟩]⟩ w := by
    rw [grow, hheight]
    exact ⟨_, rfl⟩
  have hcreate : create ({} : Recorder) { names := { nameAttribute := "Type" } } .document = .ok _ := rfl
  obtain ⟨hledger, hphase⟩ := Ledger.created hcreate
  obtain ⟨w, hgrow⟩ := hgrow _
  obtain ⟨s', hserialize, -⟩ := hledger.serialize_ok hphase hgrow
  refine ⟨_, _, _, s', _, rfl, rfl, rfl, hcreate, hserialize, itemElement?_of_grow_ok hphase hgrow, rfl, ?_⟩
  intro hdistinct
  have hproperty := (hdistinct.inside _ (List.mem_cons_self ..)).here.nodup
  simp at hproperty

end Session

end GraphMarkup
