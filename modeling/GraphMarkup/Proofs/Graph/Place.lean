import GraphMarkup.Proofs.Graph.Hereditary
import GraphMarkup.Proofs.Graph.Settled

/-!
# Places of properties

* `Value.Plain`, `Property.Plain` : graphs in which nothing is left to compute and no decorator stands directly around
  another;
* `plain_list`, `plain_dict`, `plain_object`, `plain_decorated` : what a plain value consists of;
* `Holder`, `Layer` : what has properties, and what stands directly around a value;
* `Place`, `Place.put` : a place of a property at any depth of a graph, and the graph with a property in it;
* `exists_place` : every property in a plain graph has a place.

A graph with a property picked out of it is `place.put p`. Another property in its place gives `place.put q`.
-/

namespace GraphMarkup

/-! ## Plain graphs -/

/-- A graph in which nothing is left to compute and no decorator stands directly around another. -/
inductive Value.Plain : Value → Prop
  | intro {v : Value} (parts : v.PartsSettled) (unchained : v.isChain = false) (inside : ∀ c ∈ v.children, c.Plain) :
    Plain v

/-- A property that is at hand, with a plain value, or known to be missing. -/
structure Property.Plain (p : Property Value) : Prop where
  atHand : p.value.AtHand
  inside : ∀ v ∈ p.value.results, v.Plain

theorem Property.plain_failed (name : String) (declaredType : Option String) (reason : String) :
    Plain { name, declaredType, value := .failed reason } :=
  ⟨trivial, List.forall_mem_nil _⟩

theorem Property.plain_ready {name : String} {declaredType : Option String} {v : Value} :
    Plain { name, declaredType, value := .ready v } ↔ v.Plain :=
  ⟨fun h => h.inside v (List.mem_singleton_self v), fun h => ⟨trivial, List.forall_mem_singleton.2 h⟩⟩

theorem Property.plain_of_rows {ps : List (Property Value)} (hparts : ∀ p ∈ ps, p.value.AtHand)
    (hinside : ∀ c ∈ ps.flatMap fun p => p.value.results, c.Plain) : ∀ p ∈ ps, p.Plain :=
  fun p hp => ⟨hparts p hp, fun c hc => hinside c (List.mem_flatMap.2 ⟨p, hp, hc⟩)⟩

theorem Property.inside_of_plain {ps : List (Property Value)} (h : ∀ p ∈ ps, p.Plain) :
    ∀ c ∈ ps.flatMap fun p => p.value.results, c.Plain := by
  intro c hc
  obtain ⟨p, hp, hc⟩ := List.mem_flatMap.1 hc
  exact (h p hp).inside c hc

namespace Value

section

variable {v inner : Value} {kind : ListKind} {name : String} {typeName : Option String} {elements : Sequence Value}
  {entries : Sequence (Value × Value)} {ps : List (Property Value)} {display : Option (Fetch String)}
  {deserialized : Bool}

theorem Plain.parts (h : v.Plain) : v.PartsSettled := by
  cases h
  assumption

theorem Plain.unchained (h : v.Plain) : v.isChain = false := by
  cases h
  assumption

theorem hereditary_plain : Hereditary Plain := by
  intro v h c hc
  cases h with
  | intro _ _ inside => exact inside c hc

theorem plain_list : (list kind typeName elements ps).Plain ↔
    (∃ items, elements = .ready items ∧ ∀ v ∈ items, v.Plain) ∧ ∀ p ∈ ps, p.Plain := by
  constructor
  · intro h
    obtain ⟨⟨items, rfl⟩, hparts⟩ := h.parts
    have hinside := hereditary_plain _ h
    refine ⟨⟨items, rfl, fun v hv => hinside v (List.mem_append_left _ hv)⟩, ?_⟩
    exact Property.plain_of_rows hparts fun c hc => hinside c (List.mem_append_right _ hc)
  · rintro ⟨⟨items, rfl, hitems⟩, hps⟩
    exact .intro ⟨⟨items, rfl⟩, fun p hp => (hps p hp).atHand⟩ rfl
      (List.forall_mem_append.2 ⟨hitems, Property.inside_of_plain hps⟩)

theorem plain_dict : (dict typeName entries).Plain ↔
    ∃ items, entries = .ready items ∧ ∀ entry ∈ items, entry.1.Plain ∧ entry.2.Plain := by
  constructor
  · intro h
    obtain ⟨items, rfl⟩ := h.parts
    have hinside (entry) (hentry : entry ∈ items) (c) (hc : c ∈ [entry.1, entry.2]) : c.Plain :=
      hereditary_plain _ h c (List.mem_flatMap.2 ⟨entry, hentry, hc⟩)
    exact ⟨items, rfl, fun entry hentry => ⟨hinside entry hentry _ (by simp), hinside entry hentry _ (by simp)⟩⟩
  · rintro ⟨items, rfl, hitems⟩
    refine .intro ⟨items, rfl⟩ rfl fun c hc => ?_
    obtain ⟨entry, hentry, hc⟩ := List.mem_flatMap.1 hc
    simp only [List.mem_cons, List.not_mem_nil, or_false] at hc
    rcases hc with rfl | rfl
    · exact (hitems entry hentry).1
    · exact (hitems entry hentry).2

theorem plain_object : (object name ps display).Plain ↔ (∀ p ∈ ps, p.Plain) ∧ ∀ text ∈ display, text.AtHand := by
  constructor
  · intro h
    exact ⟨Property.plain_of_rows h.parts.1 (hereditary_plain _ h), h.parts.2⟩
  · rintro ⟨hps, hdisplay⟩
    exact .intro ⟨fun p hp => (hps p hp).atHand, hdisplay⟩ rfl (Property.inside_of_plain hps)

theorem plain_decorated : (decorated inner ps deserialized).Plain ↔
    inner.Plain ∧ (decorated inner [] false).isChain = false ∧ ∀ p ∈ ps, p.Plain := by
  have hchain : (decorated inner ps deserialized).isChain = (decorated inner [] false).isChain := by
    cases inner <;> rfl
  constructor
  · intro h
    obtain ⟨hinner, hinside⟩ := List.forall_mem_cons.1 (hereditary_plain _ h)
    exact ⟨hinner, hchain ▸ h.unchained, Property.plain_of_rows h.parts hinside⟩
  · rintro ⟨hinner, hunchained, hps⟩
    exact .intro (fun p hp => (hps p hp).atHand) (hchain.trans hunchained)
      (List.forall_mem_cons.2 ⟨hinner, Property.inside_of_plain hps⟩)

end

end Value

/-! ## Places -/

/-- What has properties: all of a list, an object or a decorated value but its own properties or notes. -/
inductive Holder where
  | list (kind : ListKind) (typeName : Option String) (elements : List Value)
  | object (typeName : String) (display : Option (Fetch String))
  | decorator (inner : Value) (deserialized : Bool)

def Holder.holding : Holder → List (Property Value) → Value
  | list kind typeName elements, ps => .list kind typeName (.ready elements) ps
  | object typeName display, ps => .object typeName ps display
  | decorator inner deserialized, ps => .decorated inner ps deserialized

/-- What stands directly around a value: a list around an element, a dictionary around a key or the value of an entry, a
decorator around what is decorated, or what has properties around the value of one. -/
inductive Layer where
  | element (kind : ListKind) (typeName : Option String) (before after : List Value) (properties : List (Property Value))
  | entryKey (typeName : Option String) (before : List (Value × Value)) (value : Value) (after : List (Value × Value))
  | entryValue (typeName : Option String) (before : List (Value × Value)) (key : Value) (after : List (Value × Value))
  | decorated (notes : List (Property Value)) (deserialized : Bool)
  | property (holder : Holder) (before : List (Property Value)) (name : String) (declaredType : Option String)
    (after : List (Property Value))

def Layer.around : Layer → Value → Value
  | element kind typeName before after properties, v => .list kind typeName (.ready (before ++ v :: after)) properties
  | entryKey typeName before value after, v => .dict typeName (.ready (before ++ (v, value) :: after))
  | entryValue typeName before key after, v => .dict typeName (.ready (before ++ (key, v) :: after))
  | decorated notes deserialized, v => .decorated v notes deserialized
  | property holder before name declaredType after, v =>
    holder.holding (before ++ { name, declaredType, value := .ready v } :: after)

/-- A place of a property in a graph: among the properties or notes of the whole, or deeper inside. -/
inductive Place where
  | here (holder : Holder) (before after : List (Property Value))
  | under (layer : Layer) (place : Place)

/-- The graph with a property in the place. -/
def Place.put : Place → Property Value → Value
  | here holder before after, p => holder.holding (before ++ p :: after)
  | under layer place, p => layer.around (place.put p)

section

variable {ps : List (Property Value)} {v : Value} {p : Property Value}

theorem Holder.plain_of_holding {holder : Holder} (h : (holder.holding ps).Plain) : ∀ p ∈ ps, p.Plain := by
  cases holder with
  | list => exact (Value.plain_list.1 h).2
  | object => exact (Value.plain_object.1 h).1
  | decorator => exact (Value.plain_decorated.1 h).2.2

theorem Layer.plain_of_around {layer : Layer} (h : (layer.around v).Plain) : v.Plain := by
  cases layer with
  | element kind typeName before after properties =>
    obtain ⟨⟨items, hitems, hplain⟩, -⟩ := Value.plain_list.1 h
    cases hitems
    exact hplain v List.mem_append_cons_self
  | entryKey typeName before value after =>
    obtain ⟨items, hitems, hplain⟩ := Value.plain_dict.1 h
    cases hitems
    exact (hplain (v, value) List.mem_append_cons_self).1
  | entryValue typeName before key after =>
    obtain ⟨items, hitems, hplain⟩ := Value.plain_dict.1 h
    cases hitems
    exact (hplain (key, v) List.mem_append_cons_self).2
  | decorated => exact (Value.plain_decorated.1 h).1
  | property => exact Property.plain_ready.1 (Holder.plain_of_holding h _ List.mem_append_cons_self)

/-- Whatever stands in a plain graph is plain. -/
theorem Place.plain_of_put {place : Place} (h : (place.put p).Plain) : p.Plain := by
  induction place with
  | here holder before after => exact Holder.plain_of_holding h p List.mem_append_cons_self
  | under layer place ih => exact ih (Layer.plain_of_around h)

end

/-! ## Every property has a place -/

/-- A property that is one of the graph itself, a note of its outermost decorator, or deeper inside. -/
inductive Value.Contains (p : Property Value) : Value → Prop
  | own {v : Value} (h : p ∈ v.ownProperties) : Contains p v
  | note {inner : Value} {notes : List (Property Value)} {deserialized : Bool} (h : p ∈ notes) :
    Contains p (.decorated inner notes deserialized)
  | inside {v c : Value} (hc : c ∈ v.children) (h : Contains p c) : Contains p v

section

variable {v c : Value} {p : Property Value}

theorem Holder.exists_around (holder : Holder) {ps : List (Property Value)} (hps : ∀ p ∈ ps, p.value.AtHand)
    (hc : c ∈ ps.flatMap fun p => p.value.results) : ∃ layer : Layer, layer.around c = holder.holding ps := by
  obtain ⟨⟨name, declaredType, value⟩, hp, hresult⟩ := List.mem_flatMap.1 hc
  obtain ⟨before, after, rfl⟩ := List.append_of_mem hp
  cases value with
  | ready v =>
    obtain rfl := List.mem_singleton.1 hresult
    exact ⟨.property holder before name declaredType after, rfl⟩
  | failed reason => cases hresult
  | deferred getter => exact (hps _ hp).elim

/-- A plain value stands directly around each value directly inside it. -/
theorem Layer.exists_around (hv : v.Plain) (hc : c ∈ v.children) : ∃ layer : Layer, layer.around c = v := by
  have hparts := hv.parts
  cases v with
  | null | scalar | enum => cases hc
  | list kind typeName elements properties =>
    obtain ⟨⟨items, rfl⟩, hproperties⟩ := hparts
    rcases List.mem_append.1 hc with hc | hc
    · obtain ⟨before, after, rfl⟩ := List.append_of_mem (show c ∈ items from hc)
      exact ⟨.element kind typeName before after properties, rfl⟩
    · exact Holder.exists_around (.list kind typeName items) hproperties hc
  | dict typeName entries =>
    obtain ⟨items, rfl⟩ := hparts
    obtain ⟨⟨key, value⟩, hentry, hmem⟩ := List.mem_flatMap.1 hc
    obtain ⟨before, after, rfl⟩ := List.append_of_mem (show (key, value) ∈ items from hentry)
    simp only [List.mem_cons, List.not_mem_nil, or_false] at hmem
    rcases hmem with rfl | rfl
    · exact ⟨.entryKey typeName before value after, rfl⟩
    · exact ⟨.entryValue typeName before key after, rfl⟩
  | object typeName properties display =>
    exact Holder.exists_around (.object typeName display) hparts.1 hc
  | decorated inner notes deserialized =>
    rcases List.mem_cons.1 hc with rfl | hc
    · exact ⟨.decorated notes deserialized, rfl⟩
    · exact Holder.exists_around (.decorator inner deserialized) hparts hc

/-- Every property in a plain graph, however deep inside, has a place. -/
theorem exists_place (hv : v.Plain) (h : v.Contains p) : ∃ place : Place, place.put p = v := by
  induction h with
  | @own v hp =>
    have hparts := hv.parts
    cases v with
    | list kind typeName elements properties =>
      obtain ⟨⟨items, rfl⟩, -⟩ := hparts
      obtain ⟨before, after, rfl⟩ := List.append_of_mem (show p ∈ properties from hp)
      exact ⟨.here (.list kind typeName items) before after, rfl⟩
    | object typeName properties display =>
      obtain ⟨before, after, rfl⟩ := List.append_of_mem (show p ∈ properties from hp)
      exact ⟨.here (.object typeName display) before after, rfl⟩
    | null | scalar | enum | dict | decorated => cases hp
  | @note inner notes deserialized hp =>
    obtain ⟨before, after, rfl⟩ := List.append_of_mem hp
    exact ⟨.here (.decorator inner deserialized) before after, rfl⟩
  | inside hc _ ih =>
    obtain ⟨place, rfl⟩ := ih (Value.hereditary_plain _ hv _ hc)
    obtain ⟨layer, rfl⟩ := Layer.exists_around hv hc
    exact ⟨.under layer place, rfl⟩

end

end GraphMarkup
