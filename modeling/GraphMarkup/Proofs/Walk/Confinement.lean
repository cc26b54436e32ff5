import GraphMarkup.Proofs.Walk.Known

/-!
# Faults stay where they are

* `Frame`, `Frame.fill` : an element with blanks, and with the elements of a property in them;
* `Framed`, `FramedProperty` : values and properties that vary, of which the elements differ in blanks only;
* `Varied` : a value of which only parts vary, taken apart;
* `Varied.framed` : the element of a value differs in blanks only, if those of its parts do;
* `varied_list`, `varied_dict`, ... : one lemma for each way to make a value of others;
* `write_confines_faults` : a failing property in the place of another one changes nothing but the elements of that
  property.

The frame of an element comes from the body of its value, in which parts that vary are just other parts. So the
induction is on the place of the property, and a sibling is a part that does not vary.
-/

namespace GraphMarkup

/-! ## Elements with blanks -/

/-- An element with blanks. In each of them the element of a property is to stand, with the depth left for its value. -/
inductive Frame where
  | blank (depth : Nat)
  | around (tag : String) (attributes : List (String × String)) (text : Option String) (children : List Frame)

mutual

/-- The element with the blanks filled. All that is not a blank has its tag, attributes, text and position. -/
def Frame.fill (element : Nat → Element) : Frame → Element
  | .blank depth => element depth
  | .around tag attributes text children => { tag, attributes, text, children := Frame.fillAll element children }

def Frame.fillAll (element : Nat → Element) : List Frame → List Element
  | [] => []
  | frame :: frames => frame.fill element :: Frame.fillAll element frames

end

theorem Frame.fillAll_eq (element : Nat → Element) (frames : List Frame) :
    fillAll element frames = frames.map (fill element) := by
  induction frames with
  | nil => rfl
  | cons frame frames ih => rw [fillAll, ih, List.map_cons]

/-- The frame of the element of a body, with what stands for its children. -/
def Body.frame {α β : Type} (policy : Policy) (name : Option String) (frames : List Frame) (tag : String) :
    Body α β → Frame
  | text typeName t => .around tag (nameAttributes policy name ++ typeAttributes policy typeName) (some t) []
  | inside typeName _ => .around tag (nameAttributes policy name ++ typeAttributes policy typeName) none frames

theorem Body.fill_frame {α β γ δ : Type} (policy : Policy) (name : Option String) (frames : List Frame) (tag : String)
    (element : Nat → Element) (f : α → γ) (g : β → δ) (body : Body α β) :
    (body.frame policy name frames tag).fill element =
      (body.map f g).element policy name (frames.map (Frame.fill element)) tag := by
  cases body with
  | text typeName t => rfl
  | inside typeName children => rw [frame, Frame.fill, Frame.fillAll_eq, Body.map, Body.element]

/-! ## What varies -/

section

variable {Q : Type} (policy : Policy) (element : Q → Nat → Element)

/-- Plain values that vary, all of them null or none. Their elements have one frame, and what varies has its elements in
the blanks. -/
structure Framed (v : Q → Value) : Prop where
  plain : ∀ q, (v q).Plain
  isNull : ∀ q q', (v q).isNull = (v q').isNull
  frame : ∀ name depth, ∃ frame : String → Frame, ∀ q,
    Writes policy name (fun tag => (frame tag).fill (element q)) (write policy (v q) name depth)

/-- Plain properties of one name that vary. Their elements have one frame, and what varies has its elements in the
blanks. -/
structure FramedProperty (p : Q → Property Value) : Prop where
  plain : ∀ q, (p q).Plain
  name : ∀ q q', (p q).name = (p q').name
  frame : ∀ depth, ∃ frame : Frame, ∀ q,
    WritesInside [frame.fill (element q)] (writeProperty policy (write policy) depth (p q))

/-- Entries that vary, with keys and values of which the elements have one frame. -/
abbrev FramedEntry (entry : Q → Value × Value) : Prop :=
  Framed policy element (fun q => (entry q).1) ∧ Framed policy element (fun q => (entry q).2)

/-- Plain values that vary in their parts only, taken apart. -/
structure Varied (v : Q → Value) (n : Node (Q → Value) (Q → Property Value)) : Prop where
  plain : ∀ q, (v q).Plain
  node : ∀ q, (v q).node policy = n.map (· q) (· q)
  parts : n.Each (Framed policy element) (FramedProperty policy element)

end

theorem exists_forall₂ {α β : Type} {R : α → β → Prop} {as : List α} (h : ∀ a ∈ as, ∃ b, R a b) :
    ∃ bs, List.Forall₂ R as bs := by
  induction as with
  | nil => exact ⟨[], .nil⟩
  | cons a as ih =>
    obtain ⟨⟨b, hb⟩, has⟩ := List.forall_mem_cons.1 h
    obtain ⟨bs, hbs⟩ := ih has
    exact ⟨b :: bs, .cons hb hbs⟩

section

variable {Q : Type} {policy : Policy} {element : Q → Nat → Element} {v : Q → Value} {p : Q → Property Value}
  {n : Node (Q → Value) (Q → Property Value)}

theorem Varied.shell (h : Varied policy element v n) (q : Q) : (v q).shell = n.shell :=
  congrArg Node.shell (h.node q)

/-- What is written inside an element has a frame if what varies in it does. -/
theorem exists_child_frame {c : Child (Q → Value) (Q → Property Value)}
    (h : c.Each (Framed policy element) (FramedProperty policy element)) :
    ∃ frame : Frame, ∀ q,
      WritesInside [frame.fill (element q)] (Child.write policy (write policy) (c.map (· q) (· q))) := by
  cases c with
  | leaf s => exact ⟨.around policy.names.property _ (some _) [], fun _ => (writes_text policy none _ _).inside⟩
  | value name depth v =>
    obtain ⟨frame, hframe⟩ := h.frame name depth
    exact ⟨frame policy.names.property, fun q => (hframe q).inside⟩
  | property depth p => exact h.frame depth

/-- The element of a value differs in blanks only, if those of its parts do. -/
theorem Varied.framed (hpolicy : policy.Unsourced) (q₀ : Q) (h : Varied policy element v n) :
    Framed policy element v where
  plain := h.plain
  isNull q q' := by rw [← Value.isNull_shell, ← Value.isNull_shell (v q'), h.shell, h.shell]
  frame name depth := by
    generalize hbody : n.body policy (fun p => (p q₀).name) depth = body
    have hparts : ∀ c ∈ body.children, c.Each (Framed policy element) (FramedProperty policy element) :=
      hbody ▸ h.parts.body
    obtain ⟨frames, hframes⟩ := exists_forall₂ fun c hc => exists_child_frame (hparts c hc)
    refine ⟨body.frame policy name frames, fun q => ?_⟩
    -- What is selected depends on the names of properties, which do not vary.
    have hbodies : (v q).body policy depth = body.map (· q) (· q) := by
      rw [Value.body, h.node, ← hbody]
      exact Node.body_map fun p hp => (h.parts.2 p hp).name q q₀
    have hchildren : (body.map (· q) (· q)).children = body.children.map (Child.map (· q) (· q)) := by
      cases body <;> rfl
    have hinside : List.Forall₂ (fun c e => WritesInside [e] (Child.write policy (write policy) c))
        ((v q).body policy depth).children (frames.map (Frame.fill (element q))) := by
      rw [hbodies, hchildren, List.forall₂_map_left_iff, List.forall₂_map_right_iff]
      exact hframes.imp fun _ _ hframe => hframe q
    have hwrites := writes_node hpolicy (h.plain q) name depth hinside
    rw [hbodies, ← write_eq_writeNode] at hwrites
    simpa only [Body.fill_frame policy name frames _ (element q) (· q) (· q) body] using hwrites

/-! ## Properties that vary -/

theorem eq_null_of_isNull {v : Value} (h : v.isNull) : v = .null := by
  cases v with
  | null => rfl
  | scalar | enum | list | dict | object | decorated => cases h

/-- A property that is null or known to be missing does not vary. -/
theorem framedProperty_absent {p : Property Value} (hp : p.value.AtHand) (h : ∀ v ∈ p.value.results, v = .null) :
    FramedProperty policy element fun _ => p where
  plain _ := ⟨hp, fun v hv => h v hv ▸ .intro trivial rfl (List.forall_mem_nil _)⟩
  name _ _ := rfl
  frame depth := ⟨.around policy.names.property (emptyProperty policy p).attributes none [],
    fun _ => writesInside_absent h hp (write policy) depth⟩

/-- A property with a value that varies. -/
theorem Framed.property (h : Framed policy element v) (q₀ : Q) (name : String) (declaredType : Option String) :
    FramedProperty policy element fun q => { name, declaredType, value := .ready (v q) } := by
  cases hnull : (v q₀).isNull with
  | true =>
    have hv : v = fun _ => .null := funext fun q => eq_null_of_isNull ((h.isNull q q₀).trans hnull)
    rw [hv]
    exact framedProperty_absent trivial fun _ hc => List.mem_singleton.1 hc
  | false =>
    refine ⟨fun q => Property.plain_ready.2 (h.plain q), fun _ _ => rfl, fun depth => ?_⟩
    obtain ⟨frame, hframe⟩ := h.frame (some name) depth
    exact ⟨frame policy.names.property, fun q => (hframe q).property ((h.isNull q q₀).trans hnull)⟩

/-- A property that does not vary. -/
theorem framedProperty_const (q₀ : Q) {p : Property Value} (hp : p.value.AtHand)
    (h : ∀ v ∈ p.value.results, Framed policy element fun _ => v) : FramedProperty policy element fun _ => p := by
  obtain ⟨name, declaredType, value⟩ := p
  cases value with
  | ready v => exact (h v (List.mem_singleton_self v)).property q₀ name declaredType
  | failed reason => exact framedProperty_absent trivial (List.forall_mem_nil _)
  | deferred getter => exact hp.elim

/-! ## Values of which parts vary -/

theorem varied_shell {v : Value} (hv : v.Plain) (hnode : v.node policy = { shell := v.shell }) :
    Varied policy element (fun _ : Q => v) { shell := v.shell } where
  plain _ := hv
  node _ := hnode
  parts := ⟨List.forall_mem_nil _, List.forall_mem_nil _⟩

section

variable {elements : List (Q → Value)} {entries : List (Q → Value × Value)} {ps : List (Q → Property Value)}

theorem varied_list (kind : ListKind) (typeName : Option String) (helements : ∀ v ∈ elements, Framed policy element v)
    (hps : ∀ p ∈ ps, FramedProperty policy element p) :
    Varied policy element (fun q => .list kind typeName (.ready (elements.map (· q))) (ps.map (· q)))
      { shell := .list kind typeName (.ready []) [], items := elements.flatMap fun v => [(none, v)], own := ps } where
  plain q := Value.plain_list.2
    ⟨⟨_, rfl, List.forall_mem_map.2 fun v hv => (helements v hv).plain q⟩,
      List.forall_mem_map.2 fun p hp => (hps p hp).plain q⟩
  node q := by
    simp [Value.node, Node.map, Value.shell, Value.base, Value.shape?, Shape.items, Sequence.items, Value.ownProperties,
      Value.notes, List.map_flatMap, List.flatMap_map]
  parts := by
    refine ⟨fun item hitem => ?_, by rwa [List.append_nil]⟩
    obtain ⟨v, hv, hitem⟩ := List.mem_flatMap.1 hitem
    rw [List.mem_singleton.1 hitem]
    exact helements v hv

theorem varied_dict (typeName : Option String)
    (hentries : ∀ entry ∈ entries, FramedEntry policy element entry) :
    Varied policy element (fun q => .dict typeName (.ready (entries.map (· q))))
      { shell := .dict typeName (.ready []), items := entries.flatMap fun entry =>
          [(some policy.names.key, fun q => (entry q).1), (some policy.names.value, fun q => (entry q).2)] } where
  plain q := Value.plain_dict.2 ⟨_, rfl, List.forall_mem_map.2 fun entry hentry =>
    ⟨(hentries entry hentry).1.plain q, (hentries entry hentry).2.plain q⟩⟩
  node q := by
    simp [Value.node, Node.map, Value.shell, Value.base, Value.shape?, Shape.items, Sequence.items, Value.ownProperties,
      Value.notes, List.map_flatMap, List.flatMap_map]
  parts := by
    refine ⟨fun item hitem => ?_, List.forall_mem_nil _⟩
    obtain ⟨entry, hentry, hitem⟩ := List.mem_flatMap.1 hitem
    simp only [List.mem_cons, List.not_mem_nil, or_false] at hitem
    rcases hitem with rfl | rfl
    · exact (hentries entry hentry).1
    · exact (hentries entry hentry).2

theorem varied_object (typeName : String) {display : Option (Fetch String)} (hdisplay : ∀ text ∈ display, text.AtHand)
    (hps : ∀ p ∈ ps, FramedProperty policy element p) :
    Varied policy element (fun q => .object typeName (ps.map (· q)) display)
      { shell := .object typeName [] display, own := ps } where
  plain q := Value.plain_object.2 ⟨List.forall_mem_map.2 fun p hp => (hps p hp).plain q, hdisplay⟩
  node q := rfl
  parts := ⟨List.forall_mem_nil _, by rwa [List.append_nil]⟩

theorem Varied.decorated (h : Varied policy element v n) (deserialized : Bool)
    (hps : ∀ p ∈ ps, FramedProperty policy element p) (q₀ : Q)
    (hchain : (Value.decorated (v q₀) [] false).isChain = false) :
    Varied policy element (fun q => .decorated (v q) (ps.map (· q)) deserialized)
      { n with shell := .decorated n.shell [] deserialized, notes := n.notes ++ ps } where
  plain q := by
    have hshell : (Value.decorated (v q) [] false).shell = (Value.decorated (v q₀) [] false).shell := by
      rw [Value.shell, Value.shell, h.shell, h.shell]
    rw [← Value.isChain_shell, ← hshell, Value.isChain_shell] at hchain
    exact Value.plain_decorated.2 ⟨h.plain q, hchain, List.forall_mem_map.2 fun p hp => (hps p hp).plain q⟩
  node q := by
    have hnode : (Value.decorated (v q) (ps.map (· q)) deserialized).node policy =
        { (v q).node policy with
          shell := .decorated (v q).shell [] deserialized, notes := ((v q).node policy).notes ++ ps.map (· q) } := rfl
    rw [hnode, h.node, h.shell]
    simp only [Node.map, List.map_append]
  parts := by
    refine ⟨h.parts.1, ?_⟩
    rw [← List.append_assoc]
    exact List.forall_mem_append.2 ⟨h.parts.2, hps⟩

end

/-! ## Plain values -/

abbrev fixed {α : Type} (as : List α) : List (Q → α) := as.map fun a _ => a

theorem map_fixed {α : Type} (as : List α) (q : Q) : (fixed as).map (· q) = as := by
  rw [List.map_map]
  exact List.map_id as

theorem map_row {α : Type} (before : List α) (f : Q → α) (after : List α) (q : Q) :
    List.map (fun f => f q) (fixed before ++ f :: fixed after) = before ++ f q :: after := by
  rw [List.map_append, List.map_cons, map_fixed, map_fixed]

/-- A row in which one thing varies, and the others are as they have to be. -/
theorem forall_mem_row {α : Type} {P : α → Prop} {R : (Q → α) → Prop} (hfixed : ∀ a, P a → R fun _ => a) {q₀ : Q}
    {before after : List α} {f : Q → α} (h : ∀ a ∈ before ++ f q₀ :: after, P a) (hf : R f) :
    ∀ f' ∈ fixed before ++ f :: fixed after, R f' := by
  obtain ⟨hbefore, hrest⟩ := List.forall_mem_append.1 h
  have hall {as : List α} (has : ∀ a ∈ as, P a) : ∀ f' ∈ fixed as, R f' :=
    List.forall_mem_map.2 fun a ha => hfixed a (has a ha)
  exact List.forall_mem_append.2 ⟨hall hbefore, List.forall_mem_cons.2 ⟨hf, hall (List.forall_mem_cons.1 hrest).2⟩⟩

theorem framedProperties_fixed (q₀ : Q) {ps : List (Property Value)} (hps : ∀ p ∈ ps, p.value.AtHand)
    (h : ∀ c ∈ ps.flatMap fun p => p.value.results, Framed policy element fun _ => c) :
    ∀ p ∈ fixed ps, FramedProperty policy element p :=
  List.forall_mem_map.2 fun p hp =>
    framedProperty_const q₀ (hps p hp) fun c hc => h c (List.mem_flatMap.2 ⟨p, hp, hc⟩)

/-- A plain value, taken apart, does not vary. -/
theorem Value.Plain.varied (hpolicy : policy.Unsourced) (q₀ : Q) {v : Value} (h : v.Plain) :
    ∃ n, Varied policy element (fun _ => v) n := by
  induction h with
  | @intro v parts unchained inside ih =>
    have hplain : v.Plain := .intro parts unchained inside
    have hframed (c : Value) (hc : c ∈ v.children) : Framed policy element fun _ => c := by
      obtain ⟨n, hn⟩ := ih c hc
      exact hn.framed hpolicy q₀
    cases v with
    | null | scalar | enum => exact ⟨_, varied_shell hplain rfl⟩
    | list kind typeName elements properties =>
      obtain ⟨⟨items, rfl⟩, hproperties⟩ := parts
      have hvaried := varied_list kind typeName
        (List.forall_mem_map.2 fun c hc => hframed c (List.mem_append_left _ hc))
        (framedProperties_fixed q₀ hproperties fun c hc => hframed c (List.mem_append_right _ hc))
      simp only [map_fixed] at hvaried
      exact ⟨_, hvaried⟩
    | dict typeName entries =>
      obtain ⟨items, rfl⟩ := parts
      have hinside (entry) (hentry : entry ∈ items) (c) (hc : c ∈ [entry.1, entry.2]) :
          Framed policy element fun _ => c := hframed c (List.mem_flatMap.2 ⟨entry, hentry, hc⟩)
      have hentries : ∀ entry ∈ fixed items, FramedEntry policy element entry :=
        List.forall_mem_map.2 fun entry hentry =>
          ⟨hinside entry hentry _ (by simp), hinside entry hentry _ (by simp)⟩
      have hvaried := varied_dict typeName hentries
      simp only [map_fixed] at hvaried
      exact ⟨_, hvaried⟩
    | object typeName properties display =>
      have hvaried := varied_object typeName parts.2 (framedProperties_fixed q₀ parts.1 hframed)
      simp only [map_fixed] at hvaried
      exact ⟨_, hvaried⟩
    | decorated inner notes deserialized =>
      -- What is decorated has no element of its own. Its parts stand in that of the decorated value.
      obtain ⟨n, hn⟩ := ih inner (List.mem_cons_self ..)
      have hnotes := framedProperties_fixed q₀ parts fun c hc => hframed c (List.mem_cons_of_mem _ hc)
      have hvaried := hn.decorated deserialized hnotes q₀ (Value.plain_decorated.1 hplain).2.1
      simp only [map_fixed] at hvaried
      exact ⟨_, hvaried⟩

theorem Value.Plain.framed (hpolicy : policy.Unsourced) (q₀ : Q) {v : Value} (h : v.Plain) :
    Framed policy element fun _ => v := by
  obtain ⟨n, hn⟩ := h.varied hpolicy q₀
  exact hn.framed hpolicy q₀

theorem Property.Plain.framed (hpolicy : policy.Unsourced) (q₀ : Q) {p : Property Value} (h : p.Plain) :
    FramedProperty policy element fun _ => p :=
  framedProperty_const q₀ h.atHand fun v hv => (h.inside v hv).framed hpolicy q₀

/-! ## Places -/

section

variable (hpolicy : policy.Unsourced) (q₀ : Q)

include hpolicy

theorem varied_holding {holder : Holder} {before after : List (Property Value)}
    (hplain : (holder.holding (before ++ p q₀ :: after)).Plain) (hp : FramedProperty policy element p) :
    ∃ n, Varied policy element (fun q => holder.holding (before ++ p q :: after)) n := by
  have hrow := forall_mem_row (fun _ hp => Property.Plain.framed hpolicy q₀ hp) (Holder.plain_of_holding hplain) hp
  cases holder with
  | list kind typeName elements =>
    obtain ⟨⟨items, hitems, hinside⟩, -⟩ := Value.plain_list.1 hplain
    cases hitems
    have hvaried := varied_list kind typeName
      (List.forall_mem_map.2 fun v hv => (hinside v hv).framed hpolicy q₀) hrow
    simp only [map_fixed, map_row] at hvaried
    exact ⟨_, hvaried⟩
  | object typeName display =>
    have hvaried := varied_object typeName (Value.plain_object.1 hplain).2 hrow
    simp only [map_row] at hvaried
    exact ⟨_, hvaried⟩
  | decorator inner deserialized =>
    obtain ⟨hinner, hchain, -⟩ := Value.plain_decorated.1 hplain
    obtain ⟨n, hn⟩ : ∃ n, Varied policy element (fun _ => inner) n := hinner.varied hpolicy q₀
    have hvaried := hn.decorated deserialized hrow q₀ hchain
    simp only [map_row] at hvaried
    exact ⟨_, hvaried⟩

theorem varied_entries {typeName : Option String} {before after : List (Value × Value)} {entry : Q → Value × Value}
    (hplain : (Value.dict typeName (.ready (before ++ entry q₀ :: after))).Plain)
    (hentry : FramedEntry policy element entry) :
    ∃ n, Varied policy element (fun q => .dict typeName (.ready (before ++ entry q :: after))) n := by
  obtain ⟨items, hitems, hinside⟩ := Value.plain_dict.1 hplain
  cases hitems
  have hrow := forall_mem_row
    (fun _ h => (⟨h.1.framed hpolicy q₀, h.2.framed hpolicy q₀⟩ : FramedEntry policy element _)) hinside hentry
  have hvaried := varied_dict typeName hrow
  simp only [map_row] at hvaried
  exact ⟨_, hvaried⟩

theorem Varied.around {layer : Layer} (h : Varied policy element v n) (hplain : (layer.around (v q₀)).Plain) :
    ∃ n, Varied policy element (fun q => layer.around (v q)) n := by
  have hframed := h.framed hpolicy q₀
  cases layer with
  | element kind typeName before after properties =>
    obtain ⟨⟨items, hitems, hinside⟩, hproperties⟩ := Value.plain_list.1 hplain
    cases hitems
    have hvaried := varied_list kind typeName
      (forall_mem_row (fun _ hv => Value.Plain.framed hpolicy q₀ hv) hinside hframed)
      (List.forall_mem_map.2 fun p hp => (hproperties p hp).framed hpolicy q₀)
    simp only [map_fixed, map_row] at hvaried
    exact ⟨_, hvaried⟩
  | entryKey typeName before value after =>
    obtain ⟨items, hitems, hinside⟩ := Value.plain_dict.1 hplain
    cases hitems
    have hvalue : value.Plain := (hinside (v q₀, value) List.mem_append_cons_self).2
    have hentry : FramedEntry policy element fun q => (v q, value) := ⟨hframed, hvalue.framed hpolicy q₀⟩
    exact varied_entries hpolicy q₀ hplain hentry
  | entryValue typeName before key after =>
    obtain ⟨items, hitems, hinside⟩ := Value.plain_dict.1 hplain
    cases hitems
    have hkey : key.Plain := (hinside (key, v q₀) List.mem_append_cons_self).1
    have hentry : FramedEntry policy element fun q => (key, v q) := ⟨hkey.framed hpolicy q₀, hframed⟩
    exact varied_entries hpolicy q₀ hplain hentry
  | decorated notes deserialized =>
    obtain ⟨-, hchain, hnotes⟩ := Value.plain_decorated.1 hplain
    have hvaried := h.decorated deserialized
      (List.forall_mem_map.2 fun p hp => (hnotes p hp).framed hpolicy q₀) q₀ hchain
    simp only [map_fixed] at hvaried
    exact ⟨_, hvaried⟩
  | property holder before name declaredType after =>
    exact varied_holding hpolicy q₀ hplain (hframed.property q₀ name declaredType)

/-- A graph with a property that varies in a place of it. -/
theorem varied_put {place : Place} (hplain : (place.put (p q₀)).Plain) (hp : FramedProperty policy element p) :
    ∃ n, Varied policy element (fun q => place.put (p q)) n := by
  induction place with
  | here holder before after => exact varied_holding hpolicy q₀ hplain hp
  | under layer place ih =>
    obtain ⟨n, hn⟩ := ih (Layer.plain_of_around hplain)
    exact hn.around hpolicy q₀ hplain

end

/-! ## Faults -/

/-- The elements that a property has at the depths left for its value. -/
def Property.HasElements (policy : Policy) (element : Nat → Element) (p : Property Value) : Prop :=
  ∀ depth, WritesInside [element depth] (writeProperty policy (write policy) depth p)

/-- A plain property has an element at every depth, which is empty if the property is known to be missing. -/
theorem Property.Plain.exists_elements (hpolicy : policy.Unsourced) {p : Property Value} (h : p.Plain) :
    ∃ element, p.HasElements policy element ∧
      ∀ reason, p.value = .failed reason → element = fun _ => emptyProperty policy p := by
  obtain ⟨name, declaredType, value⟩ := p
  cases value with
  | failed reason =>
    have helements : Property.HasElements policy
        (fun _ => emptyProperty policy { name, declaredType, value := .failed reason })
        { name, declaredType, value := .failed reason } :=
      fun depth => writesInside_absent (List.forall_mem_nil _) h.atHand (write policy) depth
    exact ⟨_, helements, fun _ _ => rfl⟩
  | ready v =>
    -- Nothing varies, so that it does not matter what stands in the blanks.
    have hframed : FramedProperty policy (fun (_ : Unit) _ => { tag := "" }) fun _ => _ := h.framed hpolicy ()
    choose frame hframe using hframed.frame
    exact ⟨_, fun depth => hframe depth (), fun _ hreason => nomatch hreason⟩
  | deferred getter => exact h.atHand.elim

/-- A fault stays where it is: there is one frame for all that can stand in a place of a plain graph under one name. What
is written is the frame with the elements of the property in its blanks, and those of a property that fails have its name,
the type that is declared, and nothing inside. -/
theorem write_confines_faults (hpolicy : policy.Unsourced) {place : Place} {p : Property Value}
    (hplain : (place.put p).Plain) (name : Option String) (depth : Nat) :
    p.Plain ∧ ∃ frame : String → Frame,
      (∀ q : Property Value, q.name = p.name → q.Plain → ∃ element, q.HasElements policy element ∧
        Writes policy name (fun tag => (frame tag).fill element) (write policy (place.put q) name depth)) ∧
      ∀ declaredType reason,
        Writes policy name
          (fun tag => (frame tag).fill fun _ =>
            { tag := policy.names.property,
              attributes := (policy.names.nameAttribute, p.name) :: typeAttributes policy (some declaredType) })
          (write policy (place.put { name := p.name, declaredType := some declaredType, value := .failed reason })
            name depth) := by
  have hp := Place.plain_of_put hplain
  refine ⟨hp, ?_⟩
  let Q := { q : Property Value // q.name = p.name ∧ q.Plain }
  have helements (q : Q) := q.2.2.exists_elements hpolicy
  choose element helement hfailed using helements
  have hframed : FramedProperty policy element Subtype.val :=
    ⟨fun q => q.2.2, fun q q' => q.2.1.trans q'.2.1.symm, fun depth => ⟨.blank depth, fun q => helement q depth⟩⟩
  obtain ⟨n, hn⟩ := varied_put hpolicy ⟨p, rfl, hp⟩ hplain hframed
  obtain ⟨frame, hframe⟩ := (hn.framed hpolicy ⟨p, rfl, hp⟩).frame name depth
  refine ⟨frame, fun q hname hq => ⟨element ⟨q, hname, hq⟩, helement _, hframe _⟩, fun declaredType reason => ?_⟩
  let fault : Q := ⟨{ name := p.name, declaredType := some declaredType, value := .failed reason }, rfl,
    Property.plain_failed p.name (some declaredType) reason⟩
  have hwrites := hframe fault
  rw [hfailed fault reason rfl] at hwrites
  exact hwrites

end

/-- The motor of a car breaks down. The car has a note that fails as well, and stands in a list behind a null. -/
theorem write_confines_faults_in_garage :
    ({} : Policy).Unsourced ∧ ∃ (place : Place) (motor : Property Value),
      place = .under (.element .list none [.null] [] [])
        (.under (.decorated [⟨"owner", some "Person", .failed "lost"⟩] false)
          (.here (.object "Car" none) [⟨"wheels", none, .ready (.scalar (.string "4"))⟩] [])) ∧
      motor = ⟨"motor", none, .ready (.object "Motor" [⟨"fuel", none, .ready .null⟩] none)⟩ ∧
      (place.put motor).Plain ∧ motor.Plain ∧ ∃ frame : String → Frame,
        (∃ element, motor.HasElements {} element ∧
          Writes {} none (fun tag => (frame tag).fill element) (write {} (place.put motor) none 2)) ∧
        Writes {} none
          (fun tag => (frame tag).fill fun _ =>
            { tag := "Property", attributes := [("Name", "motor"), ("Type", "Engine")] })
          (write {} (place.put ⟨"motor", some "Engine", .failed "stuck"⟩) none 2) := by
  let place : Place := .under (.element .list none [.null] [] [])
    (.under (.decorated [⟨"owner", some "Person", .failed "lost"⟩] false)
      (.here (.object "Car" none) [⟨"wheels", none, .ready (.scalar (.string "4"))⟩] []))
  let motor : Property Value := ⟨"motor", none, .ready (.object "Motor" [⟨"fuel", none, .ready .null⟩] none)⟩
  have hunsourced : ({} : Policy).Unsourced := Policy.unsourced_of_no_hints rfl
  have hnull : Value.null.Plain := .intro trivial rfl (List.forall_mem_nil _)
  have hscalar (s : Scalar) : (Value.scalar s).Plain := .intro trivial rfl (List.forall_mem_nil _)
  have hplain : (place.put motor).Plain := by
    simp [place, motor, Place.put, Layer.around, Holder.holding, Value.plain_list, Value.plain_decorated,
      Value.plain_object, Property.plain_ready, Property.plain_failed, Value.isChain, hnull, hscalar]
  obtain ⟨hmotor, frame, hframe, hfault⟩ := write_confines_faults hunsourced hplain none 2
  exact ⟨hunsourced, place, motor, rfl, rfl, hplain, hmotor, frame, hframe motor rfl hmotor, hfault "Engine" "stuck"⟩

end GraphMarkup
