import GraphMarkup.Proofs.Walk.Recording

/-!
# Type names are an overlay

* `bare` : events without the attributes of a name;
* `Overlaid` : a step, and one that differs from it in nothing but the attributes that it does not record;
* `Overlaid.around` : an element with its type name, and the same element without;
* `write_without_typeNames` : without type names a walk does what it does with them, and records the same events but for
  the attributes of that name.

A walk may end anywhere, so that the events of a step need not be those of whole elements. Two recorders with as many
open elements take the same texts and ends of elements, and an attribute is only ever put where there is room for it.
-/

namespace GraphMarkup

variable {α β : Type}

/-! ## Events without the attributes of a name -/

/-- Events without the attributes of a name. -/
def bare (label : String) (events : List Event) : List Event :=
  events.filter fun event =>
    match event with
    | .attr name _ => name != label
    | .openElement _ | .text _ | .closeElement => true

section

variable {label : String}

theorem bare_append (label : String) (events later : List Event) :
    bare label (events ++ later) = bare label events ++ bare label later := List.filter_append ..

theorem bare_attrEvents_of_ne {as : List (String × String)} (h : ∀ a ∈ as, a.1 ≠ label) :
    bare label (attrEvents as) = attrEvents as := by
  refine List.filter_eq_self.2 fun event hevent => ?_
  obtain ⟨a, ha, rfl⟩ := List.mem_map.1 hevent
  exact bne_iff_ne.2 (h a ha)

theorem bare_attrEvents_of_eq {as : List (String × String)} (h : ∀ a ∈ as, a.1 = label) :
    bare label (attrEvents as) = [] := by
  refine List.filter_eq_nil_iff.2 fun event hevent => ?_
  obtain ⟨a, ha, rfl⟩ := List.mem_map.1 hevent
  simp [h a ha]

/-- Attributes open and close nothing. -/
theorem depth_append_bare (label : String) (events : List Event) {r r' : Recorder} (h : r.depth = r'.depth) :
    (r.append (bare label events)).depth = (r'.append events).depth := by
  induction events generalizing r r' with
  | nil => exact h
  | cons event events ih =>
    have hpush : (r.push event).depth = (r'.push event).depth := by cases event <;> simp [Recorder.push, h]
    rw [Recorder.append_cons]
    cases event with
    | attr name value =>
      have hskip : (r.push (.attr name value)).depth = r.depth := rfl
      by_cases hname : name = label
      · have hbare : bare label (.attr name value :: events) = bare label events := by simp [bare, hname]
        rw [hbare]
        exact ih (hskip ▸ hpush)
      · have hbare : bare label (.attr name value :: events) = .attr name value :: bare label events := by
          simp [bare, hname]
        rw [hbare, Recorder.append_cons]
        exact ih hpush
    | openElement tag => exact ih hpush
    | text content => exact ih hpush
    | closeElement => exact ih hpush

end

/-! ## Steps that differ in attributes -/

/-- A step, and one that does the same from any state that differs in the recorder at most, as long as as many elements
are open, but does not record the attributes of a name. -/
def Overlaid (label : String) (step step' : WalkM α) : Prop :=
  ∀ (w : Walker) (r : Recorder), r.depth = w.recorder.depth → ∃ events,
    (endState (step w)).recorder = w.recorder.append events ∧
    step' (w.on r) = mapState (·.on (r.append (bare label events))) (step w)

namespace Overlaid

variable {label : String}

theorem of_quiet {step : WalkM α} (h : Quiet step) : Overlaid label step step := by
  intro w r _
  refine ⟨[], h.recorder_endState w, ?_⟩
  rw [h w r]
  cases step w <;> rfl

protected theorem pure (a : α) : Overlaid label (pure a : WalkM α) (pure a) := of_quiet (quiet_pure a)

protected theorem throw (e : Error) : Overlaid label (throw e : WalkM α) (throw e) :=
  fun _ _ _ => ⟨[], rfl, rfl⟩

theorem bind {step step' : WalkM α} {k k' : α → WalkM β} (h : Overlaid label step step')
    (hk : ∀ a, Overlaid label (k a) (k' a)) : Overlaid label (step >>= k) (step' >>= k') := by
  intro w r hdepth
  obtain ⟨events, hrecorder, hstep'⟩ := h w r hdepth
  cases hstep : step w with
  | error e w₁ =>
    rw [hstep] at hrecorder hstep'
    rw [bind_of_error hstep, bind_of_error hstep']
    exact ⟨events, hrecorder, rfl⟩
  | ok a w₁ =>
    rw [hstep] at hrecorder hstep'
    have hw₁ : w₁.recorder = w.recorder.append events := hrecorder
    obtain ⟨later, hlater, hrest⟩ := hk a w₁ (r.append (bare label events))
      ((depth_append_bare label events hdepth).trans (congrArg Recorder.depth hw₁.symm))
    rw [bind_of_ok hstep, bind_of_ok hstep']
    refine ⟨events ++ later, ?_, ?_⟩
    · rw [hlater, hw₁, Recorder.append_append]
    · rw [bare_append, ← Recorder.append_append]
      exact hrest

/-- A step that looks at the state, but not at the recorder. -/
theorem get {k k' : Walker → WalkM β} (h : ∀ w r, k' (w.on r) = k' w) (hk : ∀ w, Overlaid label (k w) (k' w)) :
    Overlaid label (MonadState.get >>= k) (MonadState.get >>= k') := by
  intro w r hdepth
  obtain ⟨events, hrecorder, hstep⟩ := hk w w r hdepth
  exact ⟨events, hrecorder, (congrFun (h w r) (w.on r)).trans hstep⟩

end Overlaid

section Markup

variable {label : String}

/-- A text is refused outside elements, and then nothing is recorded. -/
theorem overlaid_text (content : String) :
    Overlaid label (WalkM.put (.text content)) (WalkM.put (.text content)) := by
  intro w r hdepth
  have hself : WalkM.put (.text content) w = WalkM.put (.text content) (w.on w.recorder) := rfl
  by_cases hzero : w.recorder.depth = 0
  · refine ⟨[], ?_, ?_⟩ <;> simp [WalkM.put, Recorder.put, hdepth, hzero, Walker.on, endState, mapState, bare]
  · refine ⟨[.text content], ?_, ?_⟩
    · rw [hself, put_on (Recorder.put_text hzero)]
      rfl
    · rw [put_on (Recorder.put_text (hdepth ▸ hzero)), hself, put_on (Recorder.put_text hzero)]
      rfl

/-- So is the end of an element. -/
theorem overlaid_close : Overlaid label (WalkM.put .closeElement) (WalkM.put .closeElement) := by
  intro w r hdepth
  have hself : WalkM.put .closeElement w = WalkM.put .closeElement (w.on w.recorder) := rfl
  by_cases hzero : w.recorder.depth = 0
  · refine ⟨[], ?_, ?_⟩ <;> simp [WalkM.put, Recorder.put, hdepth, hzero, Walker.on, endState, mapState, bare]
  · refine ⟨[.closeElement], ?_, ?_⟩
    · rw [hself, put_on (Recorder.put_closeElement hzero)]
      rfl
    · rw [put_on (Recorder.put_closeElement (hdepth ▸ hzero)), hself, put_on (Recorder.put_closeElement hzero)]
      rfl

end Markup

/-! ## Type names -/

def Policy.withTypeNames (policy : Policy) (wanted : Bool) : Policy := { policy with includeTypeNames := wanted }

section Parts

variable {policy : Policy}

theorem typeAttributes_withTypeNames_false (policy : Policy) (typeName : Option String) :
    typeAttributes (policy.withTypeNames false) typeName = [] := by cases typeName <;> rfl

theorem typeAttributes_named (policy : Policy) (typeName : Option String) :
    ∀ a ∈ typeAttributes policy typeName, a.1 = policy.names.typeAttribute := by
  unfold typeAttributes
  split
  · split
    · simp
    · exact List.forall_mem_nil _
  · exact List.forall_mem_nil _

variable (policy) in
abbrev InsideOverlaid (inside inside' : Inside) : Prop :=
  ∀ v name depth, Overlaid policy.names.typeAttribute (inside v name depth) (inside' v name depth)

/-- The type name is the only attribute of an element that a policy without type names leaves out. -/
theorem overlaid_start (hne : policy.names.nameAttribute ≠ policy.names.typeAttribute) (name typeName : Option String) :
    Overlaid policy.names.typeAttribute
      (do openNode (policy.withTypeNames true) name; writeType (policy.withTypeNames true) typeName)
      (do openNode (policy.withTypeNames false) name; writeType (policy.withTypeNames false) typeName) := by
  intro w r _
  obtain ⟨tag, attributes, w₁, hnames, -, hopening⟩ := openNode_on policy name w
  obtain ⟨hopen, hstart⟩ := hopening w.recorder
  obtain ⟨hopen', hstart'⟩ := hopening r
  have hstep : (do openNode (policy.withTypeNames true) name; writeType (policy.withTypeNames true) typeName : WalkM Unit)
      w = _ :=
    (bind_of_ok hopen).trans (writeType_on (policy.withTypeNames true) typeName hstart)
  have hstep' : (do openNode (policy.withTypeNames false) name; writeType (policy.withTypeNames false) typeName : WalkM Unit)
      (w.on r) = _ :=
    (bind_of_ok hopen').trans (writeType_on (policy.withTypeNames false) typeName hstart')
  have htypes : ∀ a ∈ typeAttributes (policy.withTypeNames true) typeName, a.1 = policy.names.typeAttribute :=
    typeAttributes_named _ typeName
  have hbare : bare policy.names.typeAttribute (.openElement tag :: attrEvents attributes ++
      attrEvents (typeAttributes (policy.withTypeNames true) typeName)) = .openElement tag :: attrEvents attributes := by
    rw [bare_append, bare_attrEvents_of_eq htypes, List.append_nil]
    exact congrArg (Event.openElement tag :: ·) (bare_attrEvents_of_ne fun a ha => hnames a ha ▸ hne)
  refine ⟨.openElement tag :: attrEvents attributes ++
    attrEvents (typeAttributes (policy.withTypeNames true) typeName), ?_, ?_⟩
  · rw [hstep, Recorder.append_append]
    rfl
  · rw [hstep, hstep', hbare, typeAttributes_withTypeNames_false, Recorder.append_append]
    exact congrArg (fun events => EStateM.Result.ok () (w₁.on (r.append events))) (List.append_nil _)

/-- An element is overlaid by the same one with its type name. -/
theorem Overlaid.around {inside inside' : WalkM Unit} (hne : policy.names.nameAttribute ≠ policy.names.typeAttribute)
    (h : Overlaid policy.names.typeAttribute inside inside') (name typeName : Option String) :
    Overlaid policy.names.typeAttribute (writeAround (policy.withTypeNames true) name typeName inside)
      (writeAround (policy.withTypeNames false) name typeName inside') := by
  have hframe := (overlaid_start hne name typeName).bind fun _ =>
    h.bind fun _ => overlaid_close
  simpa only [writeAround, bind_assoc] using hframe

/-! ## Loops -/

section Loops

variable {label : String} {body body' : α → WalkM Unit}

theorem overlaid_forM (h : ∀ a, Overlaid label (body a) (body' a)) (as : List α) :
    Overlaid label (as.forM body) (as.forM body') := by
  induction as with
  | nil => exact .pure ()
  | cons a as ih => exact (h a).bind fun _ => ih

theorem overlaid_forEachStep (h : ∀ a, Overlaid label (body a) (body' a)) (id : Nat) (endStops : Bool) (index : Nat)
    (steps : List (Step α)) :
    Overlaid label (forEachStep id endStops body index steps) (forEachStep id endStops body' index steps) := by
  induction steps generalizing index with
  | nil => exact .of_quiet (quiet_onRun _)
  | cons step steps ih =>
    refine (Overlaid.of_quiet (quiet_onRun _)).bind fun _ => ?_
    cases step.outcome with
    | ok item => exact (h item).bind fun _ => ih (index + 1)
    | error reason => exact .of_quiet (quiet_note _)

theorem overlaid_forEachItem (h : ∀ a, Overlaid label (body a) (body' a)) (items : Sequence α) :
    Overlaid label (forEachItem items body) (forEachItem items body') := by
  cases items with
  | ready items => exact overlaid_forM h items
  | deferred enumerator =>
    refine (Overlaid.of_quiet (quiet_onRun _)).bind fun answer => ?_
    cases answer with
    | ok enumeration => exact overlaid_forEachStep h enumerator.id enumeration.endStops 0 enumeration.steps
    | error reason => exact .of_quiet (quiet_note _)

end Loops

/-! ## The ways to write a value -/

section Ways

variable {inside inside' : Inside}

theorem overlaid_null (hne : policy.names.nameAttribute ≠ policy.names.typeAttribute) (name : Option String) :
    Overlaid policy.names.typeAttribute (writeNull (policy.withTypeNames true) name)
      (writeNull (policy.withTypeNames false) name) :=
  Overlaid.around hne (.pure ()) name none

theorem overlaid_scalar (hne : policy.names.nameAttribute ≠ policy.names.typeAttribute) (name : Option String)
    (scalar : Scalar) :
    Overlaid policy.names.typeAttribute (writeScalar (policy.withTypeNames true) name scalar)
      (writeScalar (policy.withTypeNames false) name scalar) :=
  Overlaid.around hne (overlaid_text _) name (some (policy.knownTypes.typeNameOf scalar))

theorem overlaid_emptyProperty (hne : policy.names.nameAttribute ≠ policy.names.typeAttribute) (p : Property Value) :
    Overlaid policy.names.typeAttribute (writeEmptyProperty (policy.withTypeNames true) p)
      (writeEmptyProperty (policy.withTypeNames false) p) :=
  Overlaid.around hne (.pure ()) (some p.name) (p.typeName? policy.knownTypes)

variable (hne : policy.names.nameAttribute ≠ policy.names.typeAttribute) (h : InsideOverlaid policy inside inside')

include hne h

theorem overlaid_property (depth : Nat) (p : Property Value) :
    Overlaid policy.names.typeAttribute (writeProperty (policy.withTypeNames true) inside depth p)
      (writeProperty (policy.withTypeNames false) inside' depth p) := by
  refine (Overlaid.of_quiet quiet_poll).bind fun _ => (Overlaid.of_quiet (quiet_onRun _)).bind fun answer => ?_
  cases answer with
  | ok value =>
    by_cases hnull : value.isNull
    · simp only [if_pos hnull]
      exact overlaid_emptyProperty hne p
    · simp only [if_neg hnull]
      exact h value (some p.name) depth
  | error reason => exact (Overlaid.of_quiet (quiet_note _)).bind fun _ => overlaid_emptyProperty hne p

theorem overlaid_properties (depth : Nat) (ps : List (Property Value)) :
    Overlaid policy.names.typeAttribute (writeProperties (policy.withTypeNames true) inside depth ps)
      (writeProperties (policy.withTypeNames false) inside' depth ps) :=
  overlaid_forM (overlaid_property hne h (depth - 1)) ps

/-- Hints do not depend on whether type names are written, so that the same properties are selected. -/
theorem overlaid_selection (value : Value) (depth : Nat) :
    Overlaid policy.names.typeAttribute (writeSelection (policy.withTypeNames true) inside value depth)
      (writeSelection (policy.withTypeNames false) inside' value depth) :=
  overlaid_properties hne h (policy.depthFor value depth) (policy.selection value)

omit hne in
theorem overlaid_items (depth : Nat) (shape : Shape) :
    Overlaid policy.names.typeAttribute (writeItems (policy.withTypeNames true) inside depth shape)
      (writeItems (policy.withTypeNames false) inside' depth shape) := by
  cases shape with
  | dictionary entries =>
    exact overlaid_forEachItem (fun entry => (h entry.1 _ depth).bind fun _ => h entry.2 _ depth) entries
  | list kind elements => exact overlaid_forEachItem (fun item => h item none depth) elements

theorem overlaid_notedScalar (notes : List (Property Value)) (scalar : Scalar) (name : Option String) (depth : Nat) :
    Overlaid policy.names.typeAttribute
      (writeNotedScalar (policy.withTypeNames true) inside notes scalar name depth)
      (writeNotedScalar (policy.withTypeNames false) inside' notes scalar name depth) := by
  unfold writeNotedScalar
  by_cases hempty : notes.isEmpty
  · simp only [if_pos hempty]
    exact overlaid_scalar hne name scalar
  · simp only [if_neg hempty]
    have hframe := ((overlaid_scalar hne none scalar).bind fun _ => overlaid_properties hne h depth notes).around hne
      name (some (policy.knownTypes.typeNameOf scalar))
    simp only [writeAround, bind_assoc] at hframe
    exact hframe

theorem overlaid_container (value : Value) (shape : Shape) (decoration : Option Decoration) (name : Option String)
    (depth : Nat) :
    Overlaid policy.names.typeAttribute
      (writeContainer (policy.withTypeNames true) inside value shape decoration name depth)
      (writeContainer (policy.withTypeNames false) inside' value shape decoration name depth) := by
  rw [writeContainer_eq, writeContainer_eq]
  refine Overlaid.around hne ((overlaid_items h depth shape).bind fun _ => ?_) name _
  by_cases hwhole : (shape.hasSidecar || decoration.any Decoration.deserialized) = true
  · simp only [if_pos hwhole]
    exact overlaid_selection hne h value depth
  · simp only [if_neg hwhole]
    exact overlaid_properties hne h depth _

theorem overlaid_asString (value : Value) (name : Option String) (depth : Nat) :
    Overlaid policy.names.typeAttribute (writeAsString (policy.withTypeNames true) inside value name depth)
      (writeAsString (policy.withTypeNames false) inside' value name depth) := by
  by_cases hempty : value.notes.isEmpty
  · simp only [writeAsString, if_pos hempty]
    -- A string form depends on the hints, but not on whether type names are written.
    refine (Overlaid.of_quiet (closedSteps_quiet.stringForm policy value)).bind fun text => ?_
    cases text with
    | some text => exact Overlaid.around hne (overlaid_text _) name (value.typeName? policy.knownTypes)
    | none => exact overlaid_null hne name
  · rw [writeAsString_eq _ inside hempty, writeAsString_eq _ inside' hempty]
    refine Overlaid.around hne ((Overlaid.of_quiet (closedSteps_quiet.stringLeaf policy value)).bind fun leaf => ?_)
      name (value.typeName? policy.knownTypes)
    refine Overlaid.bind ?_ fun _ => overlaid_properties hne h depth value.notes
    cases leaf with
    | some leaf => exact overlaid_scalar hne none leaf
    | none => exact .pure ()

theorem overlaid_chain (value inner : Value) (notes : List (Property Value)) (depth : Nat) :
    Overlaid policy.names.typeAttribute (writeChain (policy.withTypeNames true) inside value inner notes depth)
      (writeChain (policy.withTypeNames false) inside' value inner notes depth) := by
  have hpromoted : Overlaid policy.names.typeAttribute
      (writePromoted (policy.withTypeNames true) inside value depth)
      (writePromoted (policy.withTypeNames false) inside' value depth) := by
    unfold writePromoted
    split
    · exact overlaid_selection hne h value depth
    · exact (h _ none depth).bind fun _ => overlaid_properties hne h depth value.notes
  refine Overlaid.get (fun _ _ => rfl) fun w => ?_
  by_cases hdue : w.promotionDue
  · simp only [if_pos hdue]
    exact (Overlaid.of_quiet fun _ _ => rfl).bind fun _ => hpromoted
  · simp only [if_neg hdue]
    exact (h inner none depth).bind fun _ => overlaid_properties hne h depth notes

theorem overlaid_parts (value : Value) (depth : Nat) :
    Overlaid policy.names.typeAttribute (writeParts (policy.withTypeNames true) inside value depth)
      (writeParts (policy.withTypeNames false) inside' value depth) := by
  unfold writeParts
  split
  · exact overlaid_chain hne h _ _ _ depth
  · exact overlaid_selection hne h value depth

/-- A value is written in the same way with type names as without, which reach nothing but the attributes. -/
theorem overlaid_node (value : Value) (name : Option String) (depth : Nat) :
    Overlaid policy.names.typeAttribute (writeNode (policy.withTypeNames true) inside value name depth)
      (writeNode (policy.withTypeNames false) inside' value name depth) := by
  refine (Overlaid.of_quiet quiet_poll).bind fun _ => (Overlaid.of_quiet quiet_visit).bind fun _ => ?_
  have hclass : classify (policy.withTypeNames true) value depth = classify (policy.withTypeNames false) value depth :=
    rfl
  rw [hclass]
  cases classify (policy.withTypeNames false) value depth with
  | null => exact overlaid_null hne name
  | scalar scalar => exact overlaid_scalar hne name scalar
  | notedScalar notes scalar => exact overlaid_notedScalar hne h notes scalar name depth
  | container shape decoration => exact overlaid_container hne h value shape decoration name depth
  | enumLike _ underlying => exact overlaid_scalar hne name underlying
  | asString => exact overlaid_asString hne h value name depth
  | complex =>
    rw [writeComplex_eq, writeComplex_eq]
    exact Overlaid.around hne (overlaid_parts hne h value depth) name (value.typeName? policy.knownTypes)

end Ways

end Parts

/-! ## Whole values -/

theorem overlaid_within {policy : Policy} (hne : policy.names.nameAttribute ≠ policy.names.typeAttribute) (levels : Nat) :
    InsideOverlaid policy (writeWithin (policy.withTypeNames true) levels)
      (writeWithin (policy.withTypeNames false) levels) := by
  induction levels with
  | zero => exact fun _ _ _ => .throw .cancelled
  | succ levels ih => exact overlaid_node hne ih

/-- Without type names a walk ends as it does with them, with the same run behind it, and so with the same requests and
the same warnings. It records the same events but for the attributes that hold type names. -/
theorem write_without_typeNames (policy : Policy) (hne : policy.names.nameAttribute ≠ policy.names.typeAttribute)
    (value : Value) (name : Option String) (depth : Nat) (w : Walker) :
    ∃ events,
      (endState (write (policy.withTypeNames true) value name depth w)).recorder = w.recorder.append events ∧
      write (policy.withTypeNames false) value name depth w =
        mapState (·.on (w.recorder.append (bare policy.names.typeAttribute events)))
          (write (policy.withTypeNames true) value name depth w) :=
  overlaid_within hne value.height value name depth w w.recorder rfl

/-- The wheel of a car cannot be read, and a stop is requested while it is: the walk is cancelled before the owner, in the
middle of the element, with type names or without. -/
theorem write_without_typeNames_of_stopped_car :
    ({} : Policy).names.nameAttribute ≠ ({} : Policy).names.typeAttribute ∧
      ∃ (car : Value) (events : List Event),
        car = .object "Car" [⟨"wheel", some "Wheel", .deferred ⟨1, .error "flat", [], some 1⟩⟩,
          ⟨"owner", some "Person", .deferred ⟨2, .ok .null, [], none⟩⟩] none ∧
        events = [.openElement "Object", .attr "Type" "Car", .openElement "Property", .attr "Name" "wheel",
          .attr "Type" "Wheel", .closeElement] ∧
        (endState (write (({} : Policy).withTypeNames true) car none 1 {})).recorder = ({} : Recorder).append events ∧
        write (({} : Policy).withTypeNames false) car none 1 {} =
          mapState (·.on (({} : Recorder).append (bare "Type" events)))
            (write (({} : Policy).withTypeNames true) car none 1 {}) := by
  let car : Value := .object "Car" [⟨"wheel", some "Wheel", .deferred ⟨1, .error "flat", [], some 1⟩⟩,
    ⟨"owner", some "Person", .deferred ⟨2, .ok .null, [], none⟩⟩] none
  have hevents : (endState (write (({} : Policy).withTypeNames true) car none 1 {})).recorder.events =
      #[.openElement "Object", .attr "Type" "Car", .openElement "Property", .attr "Name" "wheel",
        .attr "Type" "Wheel", .closeElement] := by
    decide +kernel
  obtain ⟨events, hrecorder, hwrite⟩ := write_without_typeNames {} (by decide) car none 1 {}
  rw [hrecorder, Recorder.events_append] at hevents
  exact ⟨by decide, car, events, rfl, by simpa using hevents, hrecorder, hwrite⟩

end GraphMarkup
