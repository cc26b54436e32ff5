import GraphMarkup.Proofs.Graph.Hereditary
import GraphMarkup.Proofs.Graph.Items
import GraphMarkup.Proofs.Graph.Related
import GraphMarkup.Proofs.Walk.Label
import GraphMarkup.Walk.Levels
import Mathlib.Data.List.Forall2

/-!
# Charts of walks

* `Chart` : an element together with what it stands for, the states of the walk before and after it, and the charts of
  its children;
* `Chart.OfProperty`, `Chart.Shows` : charts of a property and of a value;
* `Chart.Expands` : what stands inside the element of a value;
* `Chart.Sound` : a chart that tells at every node how the walk has written it;
* `Chart.OfValue`, `Chart.Expands.holds` : what passes from values to those inside them holds of all values in an element.

A chart adds nothing to an element but where it comes from: the element of a sound chart has the elements of the charts
inside for its children.
-/

namespace GraphMarkup

/-- What an element stands for: a value with a depth left, a property without a value, or a scalar in front of notes. -/
inductive Subject where
  | value (value : Value) (depth : Nat)
  | absence
  | leaf

/-- An element, what it stands for and under which name, and the states of the walk before and after it. Inside are
first the charts of what a value holds, and then those of its properties and notes. -/
structure Chart where
  subject : Subject
  name : Option String
  element : Element
  before : Walker
  after : Walker
  front : List Chart
  properties : List Chart

/-- What the element of a property stands for when a read has given an answer. -/
def Subject.ofAnswer (depth : Nat) : Except String Value → Subject
  | .ok v => if v.isNull then .absence else .value v depth
  | .error _ => .absence

/-- Whether an element is that of a chain of decorators which is expanded. -/
def Subject.expandsChain (policy : Policy) : Subject → Bool
  | .value v depth =>
    match classify policy v depth with
    | .complex => v.isChain
    | _ => false
  | .absence | .leaf => false

section

variable {policy : Policy} {v : Value} {depth : Nat}

theorem Subject.expandsChain_of_complex (h : classify policy v depth = .complex) :
    (value v depth).expandsChain policy = v.isChain := by
  simp only [expandsChain, h]

theorem Subject.expandsChain_of_ne_complex (h : classify policy v depth ≠ .complex) :
    (value v depth).expandsChain policy = false := by
  simp only [expandsChain]

theorem Subject.of_expandsChain (h : (value v depth).expandsChain policy) :
    classify policy v depth = .complex ∧ v.isChain := by
  by_cases hclass : classify policy v depth = .complex
  · rw [expandsChain_of_complex hclass] at h
    exact ⟨hclass, h⟩
  · rw [expandsChain_of_ne_complex hclass] at h
    cases h

end

namespace Chart

def inside (c : Chart) : List Chart := c.front ++ c.properties

/-- A chart of a value with a depth left, written under a name or none. -/
structure Shows (c : Chart) (value : Value) (name : Option String) (depth : Nat) : Prop where
  subject : c.subject = .value value depth
  name : c.name = name

/-- A chart of the scalar that stands in front of notes. -/
structure IsLeaf (c : Chart) : Prop where
  subject : c.subject = .leaf
  name : c.name = none

/-- A chart of a property: of the value that a read has given, with a depth left, or of its absence. -/
structure OfProperty (depth : Nat) (p : Property Value) (c : Chart) : Prop where
  name : c.name = some p.name
  read : ∃ run : Run, c.subject = .ofAnswer depth (p.value.read (.property p.name) run).1 ∧
    c.before.run = (p.value.read (.property p.name) run).2

/-- Charts of properties of something at a depth, one for each of them. -/
abbrev OfProperties (depth : Nat) : List (Property Value) → List Chart → Prop :=
  List.Forall₂ (OfProperty (depth - 1))

/-- Charts one after another: whether a promotion is due is the same after one as before the next. -/
def Threads : Bool → List Chart → Bool → Prop
  | due, [], due' => due = due'
  | due, c :: cs, due' => c.before.promotionDue = due ∧ Threads c.after.promotionDue cs due'

/-- What stands inside the element of a chain of decorators. If a promotion is due, it is the properties of the base and
all notes, or the element of the base in front of all notes. Otherwise it is the element of what the outermost
decorator is around, and the notes of that decorator. -/
def ExpandsChain (policy : Policy) (value inner : Value) (notes : List (Property Value)) (depth : Nat) (due : Bool)
    (front properties : List Chart) : Prop :=
  if due then
    match value.base with
    | .object .. => front = [] ∧ OfProperties (policy.depthFor value depth) (policy.selection value) properties
    | base => (∃ c : Chart, front = [c] ∧ c.Shows base none depth) ∧ OfProperties depth value.notes properties
  else (∃ c : Chart, front = [c] ∧ c.Shows inner none depth) ∧ OfProperties depth notes properties

/-- What stands inside the element of a value with a depth left, by the way in which it is written. Before it a promotion
is due or not, and every part has been read so many times. -/
def Expands (policy : Policy) (value : Value) (depth : Nat) (due : Bool) (reads : Nat → Nat)
    (front properties : List Chart) : Prop :=
  match classify policy value depth with
  | .null | .scalar _ | .enumLike .. => front = [] ∧ properties = []
  | .notedScalar notes _ =>
    if notes.isEmpty then front = [] ∧ properties = []
    else (∃ c : Chart, front = [c] ∧ c.IsLeaf) ∧ OfProperties depth notes properties
  | .container shape decoration =>
    List.Forall₂ (fun item c => c.Shows item.2 item.1 depth) (shape.items policy reads) front ∧
      if shape.hasSidecar || decoration.any Decoration.deserialized then
        OfProperties (policy.depthFor value depth) (policy.selection value) properties
      else OfProperties depth ((decoration.map Decoration.notes).getD []) properties
  | .asString =>
    if value.notes.isEmpty then front = [] ∧ properties = []
    else (front = [] ∨ ∃ c : Chart, front = [c] ∧ c.IsLeaf) ∧ OfProperties depth value.notes properties
  | .complex =>
    match value with
    | .decorated (.decorated inner notes deserialized) outerNotes _ =>
      ExpandsChain policy value (.decorated inner notes deserialized) outerNotes depth due front properties
    | _ => front = [] ∧ OfProperties (policy.depthFor value depth) (policy.selection value) properties

/-- A chart that tells how the walk has written its element, given charts that do so for the children. The element of a
value comes from a call of the walk, which an expanded chain of decorators leaves without a promotion. -/
structure Fits (policy : Policy) (c : Chart) : Prop where
  labelled : c.element.Labelled policy c.name
  children : c.element.children = c.inside.map Chart.element
  threads : Threads (c.before.promotionDue && !c.subject.expandsChain policy) c.inside c.after.promotionDue
  subject : match c.subject with
    | .value value depth =>
      (∀ r, write policy value c.name depth (c.before.on r) = .ok () (c.after.on (r.append c.element.events))) ∧
        Expands policy value depth c.before.promotionDue c.before.run.reads c.front c.properties
    | .absence | .leaf => c.inside = []

/-- A chart that tells at every node how the walk has written it. -/
inductive Sound (policy : Policy) : Chart → Prop
  | intro {c : Chart} (here : c.Fits policy) (within : ∀ c' ∈ c.inside, c'.Sound policy) : Sound policy c

/-! ## Charts in a row -/

theorem Threads.append {due due' due'' : Bool} {cs later : List Chart} (h : Threads due cs due')
    (h' : Threads due' later due'') : Threads due (cs ++ later) due'' := by
  induction cs generalizing due with
  | nil =>
    obtain rfl : due = due' := h
    exact h'
  | cons c cs ih => exact ⟨h.1, ih h.2⟩

theorem OfProperties.named {depth : Nat} {ps : List (Property Value)} {properties : List Chart}
    (h : OfProperties depth ps properties) : ∀ c ∈ properties, c.name.isSome := by
  intro c hc
  obtain ⟨p, -, hproperty⟩ := exists_of_mem_forall₂ h hc
  rw [hproperty.name]
  rfl

/-! ## What is expanded property by property -/

section

variable {policy : Policy} {v : Value} {depth : Nat} {due : Bool} {reads : Nat → Nat} {front properties : List Chart}

theorem Expands.of_chain {inner : Value} {notes outerNotes : List (Property Value)} {deserialized outer : Bool}
    (hclass : classify policy (.decorated (.decorated inner notes deserialized) outerNotes outer) depth = .complex)
    (h : Expands policy (.decorated (.decorated inner notes deserialized) outerNotes outer) depth due reads front
      properties) :
    ExpandsChain policy (.decorated (.decorated inner notes deserialized) outerNotes outer)
      (.decorated inner notes deserialized) outerNotes depth due front properties := by
  unfold Expands at h
  rwa [hclass] at h

theorem Expands.of_not_chain (hclass : classify policy v depth = .complex) (hchain : v.isChain = false)
    (h : Expands policy v depth due reads front properties) :
    front = [] ∧ OfProperties (policy.depthFor v depth) (policy.selection v) properties := by
  unfold Expands at h
  rw [hclass] at h
  cases v with
  | decorated v notes deserialized =>
    cases v with
    | decorated => cases hchain
    | null | scalar | enum | list | dict | object => exact h
  | null | scalar | enum | list | dict | object => exact h

end

/-! ## What stands inside a value -/

/-- What a chart stands for and the depth that it has, if it stands for a value, are such as `Q` says. -/
def OfValue (Q : Value → Nat → Prop) (c : Chart) : Prop := ∀ v depth, c.subject = .value v depth → Q v depth

section

variable {P : Value → Prop} {Q : Value → Nat → Prop} {policy : Policy} {v : Value} {depth : Nat} {due : Bool}
  {reads : Nat → Nat} {c : Chart} {front properties : List Chart}

theorem Shows.ofValue {name : Option String} (h : c.Shows v name depth) (hQ : Q v depth) : c.OfValue Q := by
  intro a left hvalue
  rw [h.subject] at hvalue
  cases hvalue
  exact hQ

theorem IsLeaf.ofValue (h : c.IsLeaf) : c.OfValue Q := by
  intro a left hvalue
  rw [h.subject] at hvalue
  cases hvalue

theorem OfProperties.ofValue {ps : List (Property Value)} (hps : ∀ p ∈ ps, ∀ a ∈ p.value.results, Q a (depth - 1))
    (h : OfProperties depth ps properties) : ∀ c ∈ properties, c.OfValue Q := by
  intro c hc a left hvalue
  obtain ⟨p, hp, hproperty⟩ := exists_of_mem_forall₂ h hc
  obtain ⟨run, hsubject, -⟩ := hproperty.read
  rw [hvalue] at hsubject
  cases hread : (p.value.read (.property p.name) run).1 with
  | error reason =>
    rw [hread] at hsubject
    cases hsubject
  | ok b =>
    rw [hread, Subject.ofAnswer] at hsubject
    split at hsubject
    · cases hsubject
    · cases hsubject
      exact hps p hp a (Fetch.mem_results_of_read hread)

/-- Values in front of the properties have the whole depth that is left, and those of properties one level less of it,
or of the depth that hints give to the type. -/
structure Holds (P : Value → Prop) (policy : Policy) (v : Value) (depth : Nat) (front properties : List Chart) :
    Prop where
  front : ∀ c ∈ front, c.OfValue fun a left => P a ∧ left = depth
  properties : ∀ c ∈ properties,
    c.OfValue fun a left => P a ∧ (left = policy.depthFor v depth - 1 ∨ left = depth - 1)

theorem holds_nothing (h : front = [] ∧ properties = []) : Holds P policy v depth front properties := by
  obtain ⟨rfl, rfl⟩ := h
  exact ⟨List.forall_mem_nil _, List.forall_mem_nil _⟩

theorem holds_selection (hP : Value.Hereditary P) (hv : P v)
    (hfront : ∀ c ∈ front, c.OfValue fun a left => P a ∧ left = depth)
    (h : OfProperties (policy.depthFor v depth) (policy.selection v) properties) :
    Holds P policy v depth front properties :=
  ⟨hfront, h.ofValue fun _ hp _ ha => ⟨hP.property hv (Policy.mem_properties_of_mem_selection hp) ha, .inl rfl⟩⟩

theorem holds_notes (hP : Value.Hereditary P) (hv : P v)
    (hfront : ∀ c ∈ front, c.OfValue fun a left => P a ∧ left = depth) {notes : List (Property Value)}
    (hnotes : ∀ p ∈ notes, p ∈ v.notes) (h : OfProperties depth notes properties) :
    Holds P policy v depth front properties :=
  ⟨hfront, h.ofValue fun p hp _ ha => ⟨hP.note hv (hnotes p hp) ha, .inr rfl⟩⟩

theorem ofValue_single (h : ∃ c : Chart, front = [c] ∧ c.OfValue Q) : ∀ c ∈ front, c.OfValue Q := by
  obtain ⟨c, rfl, hc⟩ := h
  exact List.forall_mem_singleton.2 hc

/-- What stands inside the element of a chain of decorators. -/
theorem ExpandsChain.holds (hP : Value.Hereditary P) {inner : Value} {notes : List (Property Value)} {deserialized : Bool}
    (hv : P (.decorated inner notes deserialized))
    (h : ExpandsChain policy (.decorated inner notes deserialized) inner notes depth due front properties) :
    Holds P policy (.decorated inner notes deserialized) depth front properties := by
  have hinner : P inner := hP _ hv inner (List.mem_cons_self ..)
  unfold ExpandsChain at h
  split at h
  · rw [Value.base_decorated] at h
    split at h
    · obtain ⟨rfl, hproperties⟩ := h
      exact holds_selection hP hv (List.forall_mem_nil _) hproperties
    · obtain ⟨⟨c, hfront, hshows⟩, hproperties⟩ := h
      exact holds_notes hP hv (ofValue_single ⟨c, hfront, hshows.ofValue ⟨hP.base hinner, rfl⟩⟩) (fun _ hp => hp)
        hproperties
  · obtain ⟨⟨c, hfront, hshows⟩, hproperties⟩ := h
    exact holds_notes hP hv (ofValue_single ⟨c, hfront, hshows.ofValue ⟨hinner, rfl⟩⟩)
      (fun _ hp => List.mem_append_right _ hp) hproperties

/-- What passes from values to those directly inside them holds of all values inside an element. -/
theorem Expands.holds (hP : Value.Hereditary P) (hv : P v) (h : Expands policy v depth due reads front properties) :
    Holds P policy v depth front properties := by
  by_cases hcomplex : classify policy v depth = .complex
  · cases hchain : v.isChain with
    | true =>
      obtain ⟨inner, notes, deserialized, outerNotes, outer, rfl⟩ := Value.exists_of_isChain hchain
      exact (h.of_chain hcomplex).holds hP hv
    | false =>
      obtain ⟨rfl, hproperties⟩ := h.of_not_chain hcomplex hchain
      exact holds_selection hP hv (List.forall_mem_nil _) hproperties
  · unfold Expands at h
    cases hclass : classify policy v depth with
    | complex => exact absurd hclass hcomplex
    | null | scalar | enumLike =>
      rw [hclass] at h
      exact holds_nothing h
    | notedScalar notes scalar =>
      obtain ⟨deserialized, rfl⟩ := eq_of_classify_eq_notedScalar hclass
      simp only [hclass] at h
      split at h
      · exact holds_nothing h
      · obtain ⟨⟨c, hfront, hleaf⟩, hproperties⟩ := h
        exact holds_notes hP hv (ofValue_single ⟨c, hfront, hleaf.ofValue⟩) (fun _ hp => hp) hproperties
    | asString =>
      simp only [hclass] at h
      split at h
      · exact holds_nothing h
      · refine holds_notes hP hv ?_ (fun _ hp => hp) h.2
        rcases h.1 with rfl | ⟨c, hfront, hleaf⟩
        · exact List.forall_mem_nil _
        · exact ofValue_single ⟨c, hfront, hleaf.ofValue⟩
    | container shape decoration =>
      simp only [hclass] at h
      obtain ⟨hshape, hnotes⟩ := base_and_notes_of_container hclass
      have hfront : ∀ c ∈ front, c.OfValue fun a left => P a ∧ left = depth := by
        intro c hc
        obtain ⟨item, hitem, hshows⟩ := exists_of_mem_forall₂ h.1 hc
        exact hshows.ofValue ⟨hP _ (hP.base hv) _ (Shape.mem_children_of_mem_items hshape hitem), rfl⟩
      have hproperties := h.2
      split at hproperties
      · exact holds_selection hP hv hfront hproperties
      · exact holds_notes hP hv hfront (fun p hp => hnotes ▸ hp) hproperties

end

/-! ## Sound charts -/

namespace Sound

variable {policy : Policy} {c c' : Chart}

theorem here (h : c.Sound policy) : c.Fits policy := by
  cases h
  assumption

theorem within (h : c.Sound policy) (hc' : c' ∈ c.inside) : c'.Sound policy := by
  cases h with
  | intro _ within => exact within c' hc'

/-- What passes from values to those directly inside them passes from a chart to the charts of its children. -/
theorem ofValue_inside {P : Value → Prop} (hP : Value.Hereditary P) (hsound : c.Sound policy)
    (h : c.OfValue fun v _ => P v) (hc' : c' ∈ c.inside) : c'.OfValue fun v _ => P v := by
  have hfits := hsound.here.subject
  cases hsubject : c.subject with
  | absence | leaf =>
    rw [hsubject] at hfits
    rw [show c.inside = [] from hfits] at hc'
    cases hc'
  | value v depth =>
    rw [hsubject] at hfits
    obtain ⟨hfront, hproperties⟩ := hfits.2.holds hP (h v depth hsubject)
    intro a left hvalue
    rcases List.mem_append.1 hc' with hc' | hc'
    · exact (hfront c' hc' a left hvalue).1
    · exact (hproperties c' hc' a left hvalue).1

end Sound

/-- What stands inside a sound chart of a value. -/
theorem Shows.expands {policy : Policy} {c : Chart} {v : Value} {name : Option String} {depth : Nat}
    (h : c.Shows v name depth) (hsound : c.Sound policy) :
    Expands policy v depth c.before.promotionDue c.before.run.reads c.front c.properties := by
  have hsubject := hsound.here.subject
  rw [h.subject] at hsubject
  exact hsubject.2

end Chart

end GraphMarkup
