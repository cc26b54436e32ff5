import GraphMarkup.Proofs.Walk.Closure

/-!
# Writing records what grows

* `Quiet` : a step of a walk that has nothing to do with the recorder;
* `Records` : a step of a walk that records the events of what another step gives;
* `writeAround` : the frame of every element: its start tag, what is inside, and its end;
* `write_records_grow` : writing a value records the events of its element.

There is one lemma for each way to write a value, and the recursion is on the number of levels.
-/

namespace GraphMarkup

open Element (eventsOf eventsOf_append eventsOf_singleton)

variable {α β : Type}

def Walker.on (w : Walker) (r : Recorder) : Walker := { w with recorder := r }

/-! ## Steps that record nothing -/

/-- A step that neither looks at the recorder nor changes it. -/
def Quiet (step : WalkM α) : Prop :=
  ∀ (w : Walker) (r : Recorder), step (w.on r) =
    match step w with
    | .ok a w' => .ok a (w'.on r)
    | .error e w' => .error e (w'.on r)

section

variable {step : WalkM α} {w w' : Walker}

theorem Quiet.of_ok (h : Quiet step) {a : α} (hw : step w = .ok a w') (r : Recorder) :
    step (w.on r) = .ok a (w'.on r) := by
  rw [h w r, hw]

theorem Quiet.of_error (h : Quiet step) {e : Error} (hw : step w = .error e w') (r : Recorder) :
    step (w.on r) = .error e (w'.on r) := by
  rw [h w r, hw]

theorem Quiet.recorder_endState (h : Quiet step) (w : Walker) : (endState (step w)).recorder = w.recorder := by
  have hself : step w = _ := h w w.recorder
  cases hstep : step w with
  | ok a w' =>
    rw [hstep] at hself
    exact congrArg (fun result => (endState result).recorder) hself
  | error e w' =>
    rw [hstep] at hself
    exact congrArg (fun result => (endState result).recorder) hself

theorem Quiet.recorder_of_ok (h : Quiet step) {a : α} (hw : step w = .ok a w') : w'.recorder = w.recorder := by
  have hrecorder := h.recorder_endState w
  rwa [hw] at hrecorder

end

theorem quiet_pure (a : α) : Quiet (pure a) := fun _ _ => rfl

theorem quiet_onRun (step : StateM Run α) : Quiet (WalkM.onRun step) := fun _ _ => rfl

theorem quiet_note (entry : Entry) : Quiet (WalkM.note entry) := quiet_onRun _

theorem Quiet.bind {step : WalkM α} {k : α → WalkM β} (h : Quiet step) (hk : ∀ a, Quiet (k a)) :
    Quiet (step >>= k) := by
  intro w r
  cases hstep : step w with
  | ok a w' =>
    rw [bind_of_ok hstep, bind_of_ok (h.of_ok hstep r)]
    exact hk a w' r
  | error e w' => rw [bind_of_error hstep, bind_of_error (h.of_error hstep r)]

theorem quiet_poll : Quiet WalkM.poll := by
  intro w r
  by_cases hstopped : w.run.stopped
  · have hstopped' : (w.on r).run.stopped := hstopped
    rw [WalkM.poll_of_stopped hstopped, WalkM.poll_of_stopped hstopped']
    rfl
  · have hrunning : ¬ (w.on r).run.stopped := hstopped
    rw [WalkM.poll_of_running hstopped, WalkM.poll_of_running hrunning]

theorem quiet_visit : Quiet WalkM.visit := fun _ _ => rfl

theorem closedSteps_quiet : ClosedSteps fun step => Quiet step where
  pure := quiet_pure
  bind h hk := h.bind hk
  note := quiet_note
  ask _ _ _ _ := quiet_onRun _
  stopIf _ := quiet_onRun _
  read _ _ := quiet_onRun _
  form _ _ := quiet_onRun _
  poll := quiet_poll
  visit := quiet_visit

/-! ## Steps that record events -/

/-- A step that records the events of what another step gives, and ends as that one does. -/
def Records (view : α → List Event) (step : WalkM Unit) (give : WalkM α) : Prop :=
  ∀ (w : Walker) (r : Recorder),
    match give w with
    | .ok a w' => step (w.on r) = .ok () (w'.on (r.append (view a)))
    | .error e w' => ∃ r', step (w.on r) = .error e (w'.on r')

abbrev RecordsElement : WalkM Unit → WalkM Element → Prop := Records Element.events

abbrev RecordsElements : WalkM Unit → WalkM (List Element) → Prop := Records eventsOf

/-- A way to write values that records the elements of another. -/
abbrev RecordsInside (inside : Inside) (element : InsideElement) : Prop :=
  ∀ value name depth, RecordsElement (inside value name depth) (element value name depth)

namespace Records

variable {view : α → List Event}

section

variable {step : WalkM Unit} {give : WalkM α} {w w' : Walker}

theorem of_ok (h : Records view step give) {a : α} (hw : give w = .ok a w') (r : Recorder) :
    step (w.on r) = .ok () (w'.on (r.append (view a))) := by
  have hstep := h w r
  rwa [hw] at hstep

theorem of_error (h : Records view step give) {e : Error} (hw : give w = .error e w') (r : Recorder) :
    ∃ r', step (w.on r) = .error e (w'.on r') := by
  have hstep := h w r
  rwa [hw] at hstep

end

theorem throw (e : Error) : Records view (throw e) (throw e) := fun _ r => ⟨r, rfl⟩

theorem nothing : RecordsElements (pure ()) (return []) := fun _ _ => rfl

theorem after {quiet : WalkM β} {step : β → WalkM Unit} {give : β → WalkM α} (hquiet : Quiet quiet)
    (h : ∀ b, Records view (step b) (give b)) : Records view (quiet >>= step) (quiet >>= give) := by
  intro w r
  cases hw : quiet w with
  | ok b w' =>
    rw [bind_of_ok hw, bind_of_ok (hquiet.of_ok hw r)]
    exact h b w' r
  | error e w' =>
    rw [bind_of_error hw, bind_of_error (hquiet.of_error hw r)]
    exact ⟨r, rfl⟩

theorem nothing_after {quiet : WalkM Unit} (h : Quiet quiet) : RecordsElements quiet (do quiet; return []) := by
  intro w r
  cases hw : quiet w with
  | ok _ w' =>
    rw [bind_of_ok hw, h.of_ok hw r]
    rfl
  | error e w' =>
    rw [bind_of_error hw]
    exact ⟨r, h.of_error hw r⟩

theorem join {step step' : WalkM Unit} {give give' : WalkM (List Element)} (h : RecordsElements step give)
    (h' : RecordsElements step' give') :
    RecordsElements (do step; step') (do return (← give) ++ (← give')) := by
  intro w r
  cases hgive : give w with
  | error e w₁ =>
    obtain ⟨r', hstep⟩ := h.of_error hgive r
    rw [bind_of_error hgive, bind_of_error hstep]
    exact ⟨r', rfl⟩
  | ok es w₁ =>
    rw [bind_of_ok hgive, bind_of_ok (h.of_ok hgive r)]
    cases hgive' : give' w₁ with
    | error e w₂ =>
      rw [bind_of_error hgive']
      exact h'.of_error hgive' _
    | ok es' w₂ =>
      rw [bind_of_ok hgive', h'.of_ok hgive' _, Recorder.append_append, ← eventsOf_append]
      rfl

theorem one {step : WalkM Unit} {give : WalkM Element} (h : RecordsElement step give) :
    RecordsElements step (do return [← give]) := by
  intro w r
  cases hgive : give w with
  | error e w' =>
    rw [bind_of_error hgive]
    exact h.of_error hgive r
  | ok e w' =>
    rw [bind_of_ok hgive, h.of_ok hgive r, ← eventsOf_singleton]
    rfl

theorem cons {step step' : WalkM Unit} {give : WalkM Element} {give' : WalkM (List Element)}
    (h : RecordsElement step give) (h' : RecordsElements step' give') :
    RecordsElements (do step; step') (do return (← give) :: (← give')) := by
  have hjoin := h.one.join h'
  simpa only [bind_assoc, pure_bind, List.singleton_append] using hjoin

end Records

/-! ## The frame of an element -/

section Frame

variable {policy : Policy} {w : Walker} {r r' : Recorder}

theorem put_on {event : Event} (h : Recorder.put event r = .ok () r') :
    WalkM.put event (w.on r) = .ok () (w.on r') := by
  simp only [WalkM.put, Walker.on, h]

theorem writeType_on (policy : Policy) (typeName : Option String) (h : r.inStartTag) :
    writeType policy typeName (w.on r) = .ok () (w.on (r.append (attrEvents (typeAttributes policy typeName)))) := by
  unfold writeType typeAttributes
  cases typeName with
  | none => rfl
  | some typeName =>
    by_cases hwanted : policy.includeTypeNames
    · simp only [if_pos hwanted]
      exact put_on (Recorder.put_attr h)
    · simp only [if_neg hwanted]
      rfl

/-- An element begins in the same way in any recorder, with its name for its only attribute before its type. -/
theorem openNode_on (policy : Policy) (name : Option String) (w : Walker) :
    ∃ tag attributes w', (∀ a ∈ attributes, a.1 = policy.names.nameAttribute) ∧
      (∀ typeName, growStart policy name typeName w =
        .ok { tag, attributes := attributes ++ typeAttributes policy typeName } w') ∧
      ∀ r : Recorder,
        openNode policy name (w.on r) = .ok () (w'.on (r.append (.openElement tag :: attrEvents attributes))) ∧
        (r.append (.openElement tag :: attrEvents attributes)).inStartTag := by
  have hstart : ∀ (r : Recorder) (tag : String), (r.push (.openElement tag)).inStartTag := fun _ _ => by
    simp [Recorder.push, Recorder.inStartTag]
  have hopen : ∀ (r : Recorder) (tag : String) (w : Walker),
      WalkM.put (.openElement tag) (w.on r) = .ok () (w.on (r.push (.openElement tag))) := fun _ _ _ => rfl
  cases name with
  | some name =>
    refine ⟨policy.names.property, [(policy.names.nameAttribute, name)], w, by simp, fun _ => rfl, fun r => ⟨?_, ?_⟩⟩
    · exact (bind_of_ok (hopen r _ w)).trans (put_on (Recorder.put_attr (hstart r _)))
    · exact Recorder.inStartTag_push_attr ..
  | none =>
    by_cases hdue : w.itemTagDue
    · refine ⟨policy.names.object, [], { w with itemTagDue := false }, List.forall_mem_nil _, fun typeName => ?_,
        fun r => ⟨?_, hstart r _⟩⟩
      · rw [growStart, get_bind, if_pos hdue]
        rfl
      · rw [openNode, get_bind, if_pos (show (w.on r).itemTagDue from hdue)]
        rfl
    · refine ⟨policy.names.property, [], w, List.forall_mem_nil _, fun typeName => ?_, fun r => ⟨?_, hstart r _⟩⟩
      · rw [growStart, get_bind, if_neg hdue]
        rfl
      · rw [openNode, get_bind, if_neg (show ¬ (w.on r).itemTagDue from hdue)]
        rfl

def writeAround (policy : Policy) (name typeName : Option String) (inside : WalkM Unit) : WalkM Unit := do
  openNode policy name
  writeType policy typeName
  inside
  WalkM.put .closeElement

/-- An element begins with its tag and attributes, and goes on with what is inside. -/
theorem writeAround_on (policy : Policy) (name typeName : Option String) (inside : WalkM Unit) (w : Walker)
    (r : Recorder) :
    ∃ tag attributes w', growStart policy name typeName w = .ok { tag, attributes } w' ∧
      writeAround policy name typeName inside (w.on r) = (do inside; WalkM.put .closeElement : WalkM Unit)
        (w'.on (r.append (.openElement tag :: attrEvents attributes))) := by
  obtain ⟨tag, attributes, w', -, hgrow, hopening⟩ := openNode_on policy name w
  obtain ⟨hopen, hstart⟩ := hopening r
  refine ⟨tag, attributes ++ typeAttributes policy typeName, w', hgrow typeName, ?_⟩
  rw [writeAround, bind_of_ok hopen, bind_of_ok (writeType_on policy typeName hstart), Recorder.append_append,
    List.cons_append, attrEvents, attrEvents, ← List.map_append]

/-- The start tag of an element leaves it open. -/
theorem depth_append_start (r : Recorder) (tag : String) (attributes : List (String × String)) :
    (r.append (.openElement tag :: attrEvents attributes)).depth = r.depth + 1 :=
  (Recorder.steady_attributes attributes (r.push (.openElement tag))).1

theorem records_text (policy : Policy) (name typeName : Option String) (text : String) :
    RecordsElement (writeAround policy name typeName (WalkM.put (.text text)))
      (growText policy name typeName text) := by
  intro w r
  obtain ⟨tag, attributes, w', hgrow, hwrite⟩ := writeAround_on policy name typeName (WalkM.put (.text text)) w r
  have hdepth := depth_append_start r tag attributes
  have htext : ((r.append (.openElement tag :: attrEvents attributes)).push (.text text)).depth = r.depth + 1 := hdepth
  rw [growText, bind_of_ok hgrow, hwrite, bind_of_ok (put_on (Recorder.put_text (by omega)))]
  refine (put_on (Recorder.put_closeElement (by omega))).trans ?_
  have hevents : Element.events { tag, attributes, text := some text } =
      (.openElement tag :: attrEvents attributes) ++ [.text text, .closeElement] := by
    simp [Element.events, eventsOf, textEvents]
  rw [hevents, ← Recorder.append_append]
  rfl

theorem Records.around {inside : WalkM Unit} {give : WalkM (List Element)} (h : RecordsElements inside give)
    (policy : Policy) (name typeName : Option String) :
    RecordsElement (writeAround policy name typeName inside) (growAround policy name typeName give) := by
  intro w r
  obtain ⟨tag, attributes, w', hgrow, hwrite⟩ := writeAround_on policy name typeName inside w r
  have hdepth := depth_append_start r tag attributes
  rw [growAround, bind_of_ok hgrow, hwrite]
  cases hgive : give w' with
  | error e w'' =>
    obtain ⟨r', hinside⟩ := h.of_error hgive (r.append (.openElement tag :: attrEvents attributes))
    rw [bind_of_error hgive, bind_of_error hinside]
    exact ⟨r', rfl⟩
  | ok children w'' =>
    have hsteady := (Recorder.steady_eventsOf children (r.append (.openElement tag :: attrEvents attributes))).1
    rw [bind_of_ok hgive, bind_of_ok (h.of_ok hgive _)]
    refine (put_on (Recorder.put_closeElement (by omega))).trans ?_
    have hevents : Element.events { tag, attributes, children } =
        (.openElement tag :: attrEvents attributes) ++ eventsOf children ++ [.closeElement] := by
      simp [Element.events, textEvents]
    rw [hevents, ← Recorder.append_append, ← Recorder.append_append]
    rfl

end Frame

/-! ## Parts of an element -/

section Parts

variable {policy : Policy} {inside : Inside} {element : InsideElement}

theorem records_gather {α : Type} {body : α → WalkM Unit} {give : α → WalkM (List Element)}
    (h : ∀ a, RecordsElements (body a) (give a)) (as : List α) : RecordsElements (as.forM body) (gather give as) := by
  induction as with
  | nil => exact Records.nothing
  | cons a as ih => exact (h a).join ih

theorem records_gatherSteps {α : Type} {body : α → WalkM Unit} {give : α → WalkM (List Element)}
    (h : ∀ a, RecordsElements (body a) (give a)) (id : Nat) (endStops : Bool) (index : Nat) (steps : List (Step α)) :
    RecordsElements (forEachStep id endStops body index steps) (gatherSteps id endStops give index steps) := by
  induction steps generalizing index with
  | nil => exact Records.nothing_after (quiet_onRun _)
  | cons step steps ih =>
    obtain ⟨outcome, stops⟩ := step
    refine Records.after (quiet_onRun _) fun _ => ?_
    cases outcome with
    | ok item => exact (h item).join (ih (index + 1))
    | error reason => exact Records.nothing_after (quiet_note _)

theorem records_gatherItems {α : Type} {body : α → WalkM Unit} {give : α → WalkM (List Element)}
    (h : ∀ a, RecordsElements (body a) (give a)) (items : Sequence α) :
    RecordsElements (forEachItem items body) (gatherItems items give) := by
  cases items with
  | ready items => exact records_gather h items
  | deferred enumerator =>
    refine Records.after (quiet_onRun _) fun answer => ?_
    cases answer with
    | ok enumeration => exact records_gatherSteps h enumerator.id enumeration.endStops 0 enumeration.steps
    | error reason => exact Records.nothing_after (quiet_note _)

theorem records_null (policy : Policy) (name : Option String) :
    RecordsElement (writeNull policy name) (growNull policy name) :=
  Records.nothing.around policy name none

theorem records_scalar (policy : Policy) (name : Option String) (scalar : Scalar) :
    RecordsElement (writeScalar policy name scalar) (growScalar policy name scalar) :=
  records_text policy name _ _

theorem records_emptyProperty (policy : Policy) (p : Property Value) :
    RecordsElement (writeEmptyProperty policy p) (return emptyProperty policy p) :=
  Records.nothing.around policy (some p.name) (p.typeName? policy.knownTypes)

theorem records_property (h : RecordsInside inside element) (depth : Nat) (p : Property Value) :
    RecordsElement (writeProperty policy inside depth p) (growProperty policy element depth p) := by
  refine Records.after quiet_poll fun _ => Records.after (quiet_onRun _) fun answer => ?_
  cases answer with
  | ok value =>
    by_cases hnull : value.isNull
    · simp only [if_pos hnull]
      exact records_emptyProperty policy p
    · simp only [if_neg hnull]
      exact h value (some p.name) depth
  | error reason => exact Records.after (quiet_note _) fun _ => records_emptyProperty policy p

theorem records_properties (policy : Policy) (h : RecordsInside inside element) (depth : Nat)
    (ps : List (Property Value)) :
    RecordsElements (writeProperties policy inside depth ps) (growProperties policy element depth ps) :=
  records_gather (fun p => (records_property h (depth - 1) p).one) ps

theorem records_selection (policy : Policy) (h : RecordsInside inside element) (value : Value) (depth : Nat) :
    RecordsElements (writeSelection policy inside value depth) (growSelection policy element value depth) :=
  records_properties policy h (policy.depthFor value depth) (policy.selection value)

theorem records_items (policy : Policy) (h : RecordsInside inside element) (depth : Nat) (shape : Shape) :
    RecordsElements (writeItems policy inside depth shape) (growItems policy element depth shape) := by
  cases shape with
  | dictionary entries =>
    refine records_gatherItems (fun entry => ?_) entries
    have hentry := (h entry.1 (some policy.names.key) depth).cons (h entry.2 (some policy.names.value) depth).one
    simpa only [bind_assoc, pure_bind] using hentry
  | list kind elements => exact records_gatherItems (fun item => (h item none depth).one) elements

/-! ## The ways to write a value -/

theorem writeContainer_eq (policy : Policy) (inside : Inside) (value : Value) (shape : Shape)
    (decoration : Option Decoration) (name : Option String) (depth : Nat) :
    writeContainer policy inside value shape decoration name depth =
      writeAround policy name (value.typeName? policy.knownTypes) (do
        writeItems policy inside depth shape
        if shape.hasSidecar || decoration.any Decoration.deserialized then
          writeSelection policy inside value depth
        else
          writeProperties policy inside depth ((decoration.map Decoration.notes).getD [])) := by
  simp only [writeContainer, writeAround, bind_assoc]
  by_cases hwhole : (shape.hasSidecar || decoration.any Decoration.deserialized) = true
  · simp only [if_pos hwhole]
    rfl
  · simp only [if_neg hwhole]
    rfl

theorem records_container (h : RecordsInside inside element) (value : Value) (shape : Shape)
    (decoration : Option Decoration) (name : Option String) (depth : Nat) :
    RecordsElement (writeContainer policy inside value shape decoration name depth)
      (growAround policy name (value.typeName? policy.knownTypes)
        (growContents policy element value shape decoration depth)) := by
  rw [writeContainer_eq]
  refine Records.around ?_ policy name _
  unfold growContents
  by_cases hwhole : (shape.hasSidecar || decoration.any Decoration.deserialized) = true
  · simp only [if_pos hwhole]
    exact (records_items policy h depth shape).join (records_selection policy h value depth)
  · simp only [if_neg hwhole]
    exact (records_items policy h depth shape).join (records_properties policy h depth _)

theorem records_notedScalar (h : RecordsInside inside element)
    (notes : List (Property Value)) (scalar : Scalar) (name : Option String) (depth : Nat) :
    RecordsElement (writeNotedScalar policy inside notes scalar name depth)
      (if notes.isEmpty then growScalar policy name scalar
      else growAround policy name (some (policy.knownTypes.typeNameOf scalar)) do
        return (← growScalar policy none scalar) :: (← growProperties policy element depth notes)) := by
  unfold writeNotedScalar
  by_cases hempty : notes.isEmpty
  · simp only [if_pos hempty]
    exact records_scalar policy name scalar
  · simp only [if_neg hempty]
    have hframe := ((records_scalar policy none scalar).cons (records_properties policy h depth notes)).around policy
      name (some (policy.knownTypes.typeNameOf scalar))
    simpa only [writeAround, bind_assoc] using hframe

/-- The scalar that stands for a value next to its notes, if there is one. -/
def writeLeaf (policy : Policy) (leaf : Option Scalar) : WalkM Unit :=
  match leaf with
  | some leaf => writeScalar policy none leaf
  | none => pure ()

theorem writeAsString_eq (policy : Policy) (inside : Inside) {value : Value} (hnotes : ¬ value.notes.isEmpty)
    (name : Option String) (depth : Nat) :
    writeAsString policy inside value name depth =
      writeAround policy name (value.typeName? policy.knownTypes) (do
        let leaf ← stringLeaf policy value
        writeLeaf policy leaf
        writeProperties policy inside depth value.notes) := by
  simp only [writeAsString, if_neg hnotes, writeAround, bind_assoc]
  refine bind_congr fun _ => bind_congr fun _ => bind_congr fun leaf => ?_
  cases leaf with
  | some leaf => rfl
  | none => rfl

theorem records_leaf (policy : Policy) (leaf : Option Scalar) :
    RecordsElements (writeLeaf policy leaf) (growLeaf policy leaf) := by
  cases leaf with
  | some leaf => exact (records_scalar policy none leaf).one
  | none => exact Records.nothing

theorem records_string (h : RecordsInside inside element) (value : Value)
    (name : Option String) (depth : Nat) :
    RecordsElement (writeAsString policy inside value name depth) (growString policy element value name depth) := by
  unfold growString
  by_cases hempty : value.notes.isEmpty
  · simp only [writeAsString, if_pos hempty]
    refine Records.after (closedSteps_quiet.stringForm policy value) fun text => ?_
    cases text with
    | some text => exact records_text policy name _ text
    | none => exact records_null policy name
  · rw [writeAsString_eq policy inside hempty]
    simp only [if_neg hempty]
    refine Records.around (Records.after (closedSteps_quiet.stringLeaf policy value) fun leaf => ?_) policy name _
    exact (records_leaf policy leaf).join (records_properties policy h depth value.notes)

def writePromoted (policy : Policy) (inside : Inside) (value : Value) (depth : Nat) : WalkM Unit :=
  match value.base with
  | .object .. => writeSelection policy inside value depth
  | base => do
    inside base none depth
    writeProperties policy inside depth value.notes

theorem records_promoted (h : RecordsInside inside element) (value : Value) (depth : Nat) :
    RecordsElements (writePromoted policy inside value depth) (growPromoted policy element value depth) := by
  unfold writePromoted growPromoted
  generalize value.base = base
  cases base with
  | object => exact records_selection policy h value depth
  | null | scalar | enum | list | dict | decorated =>
    exact (h _ none depth).cons (records_properties policy h depth value.notes)

theorem records_chain (h : RecordsInside inside element) (value inner : Value)
    (notes : List (Property Value)) (depth : Nat) :
    RecordsElements (writeChain policy inside value inner notes depth)
      (growChain policy element value inner notes depth) := by
  intro w r
  rw [writeChain, growChain, get_bind, get_bind]
  by_cases hdue : w.promotionDue
  · rw [if_pos hdue, if_pos (show (w.on r).promotionDue from hdue), modify_bind, modify_bind]
    exact records_promoted h value depth { w with promotionDue := false } r
  · rw [if_neg hdue, if_neg (show ¬ (w.on r).promotionDue from hdue)]
    exact (h inner none depth).cons (records_properties policy h depth notes) w r

def writeParts (policy : Policy) (inside : Inside) (value : Value) (depth : Nat) : WalkM Unit :=
  match value with
  | .decorated (.decorated inner notes deserialized) outerNotes _ =>
    writeChain policy inside value (.decorated inner notes deserialized) outerNotes depth
  | _ => writeSelection policy inside value depth

theorem writeComplex_eq (policy : Policy) (inside : Inside) (value : Value) (name : Option String) (depth : Nat) :
    writeComplex policy inside value name depth =
      writeAround policy name (value.typeName? policy.knownTypes) (writeParts policy inside value depth) := by
  unfold writeComplex writeParts writeAround
  refine bind_congr fun _ => bind_congr fun _ => ?_
  cases value with
  | decorated v notes deserialized => cases v <;> rfl
  | null | scalar | enum | list | dict | object => rfl

theorem records_parts (h : RecordsInside inside element) (value : Value) (depth : Nat) :
    RecordsElements (writeParts policy inside value depth) (growParts policy element value depth) := by
  have hselection : RecordsElements (writeSelection policy inside value depth)
      (growSelection policy element value depth) :=
    records_selection policy h value depth
  cases value with
  | decorated v notes deserialized =>
    cases v with
    | decorated inner innerNotes innerDeserialized => exact records_chain h _ _ _ depth
    | null | scalar | enum | list | dict | object => exact hselection
  | null | scalar | enum | list | dict | object => exact hselection

/-- Writing a value records its element if that is so for the values inside it. -/
theorem records_node (h : RecordsInside inside element) (value : Value)
    (name : Option String) (depth : Nat) :
    RecordsElement (writeNode policy inside value name depth) (growNode policy element value name depth) := by
  refine Records.after quiet_poll fun _ => Records.after quiet_visit fun _ => ?_
  cases classify policy value depth with
  | null => exact records_null policy name
  | scalar scalar => exact records_scalar policy name scalar
  | notedScalar notes scalar => exact records_notedScalar h notes scalar name depth
  | container shape decoration => exact records_container h value shape decoration name depth
  | enumLike _ underlying => exact records_scalar policy name underlying
  | asString => exact records_string h value name depth
  | complex =>
    rw [writeComplex_eq]
    exact (records_parts h value depth).around policy name _

end Parts

/-! ## Whole values -/

theorem records_within (policy : Policy) (levels : Nat) (value : Value) (name : Option String) (depth : Nat) :
    RecordsElement (writeWithin policy levels value name depth) (growWithin policy levels value name depth) := by
  induction levels generalizing value name depth with
  | zero => exact Records.throw .cancelled
  | succ levels ih => exact records_node ih value name depth

/-- Writing a value records the events of its element. -/
theorem write_records_grow (policy : Policy) (value : Value) (name : Option String) (depth : Nat) :
    RecordsElement (write policy value name depth) (grow policy value name depth) :=
  records_within policy value.height value name depth

end GraphMarkup
