import GraphMarkup.Proofs.Graph.Place
import GraphMarkup.Proofs.Walk.Body
import GraphMarkup.Proofs.Walk.Given
import GraphMarkup.Proofs.Walk.Stopping

/-!
# Writing what is known

* `Writes`, `WritesInside` : steps that write a known element, and known elements inside another;
* `Quiet.then_writes`, `WritesInside.join`, `WritesInside.around` : what is written by steps one after another, and by
  the frame of an element around a step;
* `Body.writes` : a body is written as an element if what is inside is known;
* `writes_node` : a plain value is written as its body says.

In a plain graph no chain of decorators can be promoted. So an element depends on nothing but the value, its name and
the depth, save for the tag of the first one in an item.
-/

namespace GraphMarkup

variable {α β : Type}

/-! ## Steps that write known elements -/

/-- A step that writes an element under a name, or under none, which is known but for the tag, wherever an element of
the name can begin. -/
def Writes (policy : Policy) (name : Option String) (e : String → Element) (step : WalkM Unit) : Prop :=
  ∀ w : Walker, ¬ w.run.stopped → (name ≠ none → w.itemTagDue = false) → ∃ w',
    step w = .ok () w' ∧
    w'.recorder = w.recorder.append
      (e (if w.itemTagDue then policy.names.object else policy.names.property)).events ∧
    w'.Underway

/-- A step that writes known elements inside another. -/
def WritesInside (es : List Element) (step : WalkM Unit) : Prop :=
  ∀ w : Walker, w.Underway → ∃ w',
    step w = .ok () w' ∧ w'.recorder = w.recorder.append (Element.eventsOf es) ∧ w'.Underway

section

variable {policy : Policy} {name : Option String} {e : String → Element} {es fs : List Element} {step step' : WalkM Unit}

/-- A step that records what is given writes it. -/
theorem Records.writes {give : WalkM Element} (h : RecordsElement step give) (hgive : GivesElement policy name e give) :
    Writes policy name e step := by
  intro w hw hname
  obtain ⟨w', hw', hunderway⟩ := hgive w hw hname
  exact ⟨_, h.of_ok hw' w.recorder, rfl, ⟨hunderway.running, hunderway.tagged⟩⟩

theorem Writes.inside (h : Writes policy name e step) : WritesInside [e policy.names.property] step := by
  intro w hw
  obtain ⟨w', hstep, hrecorder, hw'⟩ := h w hw.running fun _ => hw.tagged
  rw [hw.tagged, ← Element.eventsOf_singleton] at hrecorder
  exact ⟨w', hstep, hrecorder, hw'⟩

theorem writesInside_nothing : WritesInside [] (pure ()) := fun w hw => ⟨w, rfl, rfl, hw⟩

theorem WritesInside.join (h : WritesInside es step) (h' : WritesInside fs step') :
    WritesInside (es ++ fs) (do step; step') := by
  intro w hw
  obtain ⟨w₁, hstep, hrecorder, hw₁⟩ := h w hw
  obtain ⟨w₂, hstep', hrecorder', hw₂⟩ := h' w₁ hw₁
  refine ⟨w₂, (bind_of_ok hstep).trans hstep', ?_, hw₂⟩
  rw [hrecorder', hrecorder, Recorder.append_append, Element.eventsOf_append]

/-- Things of which each writes one element. -/
theorem writesInside_forM {α : Type} {body : α → WalkM Unit} {as : List α}
    (h : List.Forall₂ (fun a e => WritesInside [e] (body a)) as es) : WritesInside es (as.forM body) := by
  induction h with
  | nil => exact writesInside_nothing
  | cons ha _ ih => exact ha.join ih

/-- A step in front that leaves the recorder alone and gives the same everywhere. -/
theorem Quiet.then_writes {α : Type} {quiet : WalkM α} {k : α → WalkM Unit} {a : α} (hquiet : Quiet quiet)
    (hgives : Gives a quiet) (h : Writes policy name e (k a)) : Writes policy name e (quiet >>= k) := by
  intro w hw hname
  obtain ⟨w₁, hstep, hw₁, hdue⟩ := hgives w hw
  obtain ⟨w₂, hrest, hrecorder, hw₂⟩ := h w₁ hw₁ fun hnamed => hdue.trans (hname hnamed)
  refine ⟨w₂, (bind_of_ok hstep).trans hrest, ?_, hw₂⟩
  rw [hrecorder, hquiet.recorder_of_ok hstep, hdue]

theorem Quiet.then_writesInside {α : Type} {quiet : WalkM α} {k : α → WalkM Unit} {a : α} (hquiet : Quiet quiet)
    (hgives : Gives a quiet) (h : WritesInside es (k a)) : WritesInside es (quiet >>= k) := by
  intro w hw
  obtain ⟨w₁, hstep, hw₁, hdue⟩ := hgives w hw.running
  obtain ⟨w₂, hrest, hrecorder, hw₂⟩ := h w₁ ⟨hw₁, hdue.trans hw.tagged⟩
  exact ⟨w₂, (bind_of_ok hstep).trans hrest, by rw [hrecorder, hquiet.recorder_of_ok hstep], hw₂⟩

/-- What is written inside an element becomes its children. -/
theorem WritesInside.around (h : WritesInside es step) (policy : Policy) (name typeName : Option String) :
    Writes policy name
      (fun tag => { tag, attributes := nameAttributes policy name ++ typeAttributes policy typeName, children := es })
      (writeAround policy name typeName step) := by
  intro w hw hname
  obtain ⟨tag, attributes, w₁, hgrow, hwrite⟩ := writeAround_on policy name typeName step w w.recorder
  rw [growStart_eq policy typeName hname] at hgrow
  cases hgrow
  generalize (if w.itemTagDue then policy.names.object else policy.names.property) = tag at hwrite ⊢
  generalize nameAttributes policy name ++ typeAttributes policy typeName = attributes at hwrite ⊢
  obtain ⟨w₂, hstep, hrecorder, hw₂⟩ := h _ (show Walker.Underway (({ w with itemTagDue := false } : Walker).on
    (w.recorder.append (.openElement tag :: attrEvents attributes))) from ⟨hw, rfl⟩)
  have hdepth := depth_append_start w.recorder tag attributes
  have hsteady := (Recorder.steady_eventsOf es (w.recorder.append (.openElement tag :: attrEvents attributes))).1
  have hclose : w₂.recorder.depth ≠ 0 := by
    have hrecorderDepth := congrArg Recorder.depth hrecorder
    simp only [Walker.on] at hrecorderDepth
    omega
  refine ⟨w₂.on (w₂.recorder.push .closeElement), hwrite.trans ((bind_of_ok hstep).trans ?_), ?_,
    ⟨hw₂.running, hw₂.tagged⟩⟩
  · exact put_on (Recorder.put_closeElement hclose)
  · have hevents : Element.events { tag, attributes, children := es } =
        (.openElement tag :: attrEvents attributes) ++ Element.eventsOf es ++ [.closeElement] := by
      simp [Element.events, textEvents]
    rw [hevents, ← Recorder.append_append, ← Recorder.append_append]
    exact congrArg (Recorder.push · .closeElement) hrecorder

theorem writes_text (policy : Policy) (name typeName : Option String) (text : String) :
    Writes policy name
      (fun tag => { tag, attributes := nameAttributes policy name ++ typeAttributes policy typeName, text := some text })
      (writeAround policy name typeName (WalkM.put (.text text))) :=
  (records_text policy name typeName text).writes (givesElement_text policy name typeName text)

end

/-! ## Values -/

def Child.write (policy : Policy) (inside : Inside) : Child Value (Property Value) → WalkM Unit
  | leaf s => writeScalar policy none s
  | value name depth v => inside v name depth
  | property depth p => writeProperty policy inside depth p

def Body.write (policy : Policy) (inside : Inside) (name : Option String) : Body Value (Property Value) → WalkM Unit
  | .text typeName t => writeAround policy name typeName (WalkM.put (.text t))
  | .inside typeName children => writeAround policy name typeName (children.forM (Child.write policy inside))

def Body.element (policy : Policy) (name : Option String) (es : List Element) (tag : String) : Body α β → Element
  | text typeName t =>
    { tag, attributes := nameAttributes policy name ++ typeAttributes policy typeName, text := some t }
  | inside typeName _ =>
    { tag, attributes := nameAttributes policy name ++ typeAttributes policy typeName, children := es }

section

variable {policy : Policy} {inside : Inside} {name : Option String} {v : Value} {depth : Nat} {es : List Element}
  {body : Body Value (Property Value)}

theorem Body.writes (h : List.Forall₂ (fun c e => WritesInside [e] (Child.write policy inside c)) body.children es) :
    Writes policy name (fun tag => body.element policy name es tag) (body.write policy inside name) := by
  cases body with
  | text typeName t => exact writes_text policy name typeName t
  | inside typeName children => exact (writesInside_forM h).around policy name typeName

theorem writeProperties_eq (policy : Policy) (inside : Inside) (depth : Nat) (ps : List (Property Value)) :
    writeProperties policy inside depth ps =
      (ps.map (Child.property (depth - 1))).forM (Child.write policy inside) := by
  induction ps with
  | nil => rfl
  | cons p ps ih => exact bind_congr fun _ => ih

theorem forM_flatMap {f : α → List β} {body : β → WalkM Unit} (as : List α) :
    (as.flatMap f).forM body = as.forM fun a => (f a).forM body := by
  induction as with
  | nil => rfl
  | cons a as ih =>
    rw [List.flatMap_cons]
    exact List.forM_append.trans (bind_congr fun _ => ih)

/-- Items at hand are written in turn. -/
theorem writeItems_eq {shape : Shape} (hshape : v.base.shape? = some shape) (hv : v.base.PartsSettled) :
    writeItems policy inside depth shape =
      ((v.node policy).items.map fun item => Child.value item.1 depth item.2).forM (Child.write policy inside) := by
  have hitems : (v.node policy).items = shape.items policy fun _ => 0 := by
    rw [Value.node, hshape]
    rfl
  rw [hitems]
  cases hbase : v.base with
  | list kind typeName elements properties =>
    rw [hbase] at hshape hv
    obtain rfl := Option.some.inj hshape
    obtain ⟨⟨items, rfl⟩, -⟩ := hv
    rw [Shape.items, List.map_flatMap, forM_flatMap]
    exact forM_congr fun item _ => (bind_pure (inside item none depth)).symm
  | dict typeName entries =>
    rw [hbase] at hshape hv
    obtain rfl := Option.some.inj hshape
    obtain ⟨items, rfl⟩ := hv
    rw [Shape.items, List.map_flatMap, forM_flatMap]
    refine forM_congr fun entry _ => bind_congr fun _ => ?_
    exact (bind_pure (inside entry.2 (some policy.names.value) depth)).symm
  | null | scalar | enum | object | decorated =>
    rw [hbase] at hshape
    cases hshape

theorem writeSelection_eq (policy : Policy) (inside : Inside) (v : Value) (depth : Nat) :
    writeSelection policy inside v depth =
      ((v.node policy).selected policy Property.name depth).forM (Child.write policy inside) := by
  rw [Value.selected_node]
  exact writeProperties_eq policy inside (policy.depthFor v depth) (policy.selection v)

theorem writeNotes_eq (policy : Policy) (inside : Inside) (v : Value) (depth : Nat) :
    writeProperties policy inside depth v.notes =
      ((v.node policy).noted depth).forM (Child.write policy inside) :=
  writeProperties_eq policy inside depth v.notes

theorem writeLeaf_eq (policy : Policy) (inside : Inside) (leaf : Option Scalar)
    (children : List (Child Value (Property Value))) :
    (do writeLeaf policy leaf; children.forM (Child.write policy inside) : WalkM Unit) =
      (leaf.toList.map Child.leaf ++ children).forM (Child.write policy inside) := by
  cases leaf with
  | none => rfl
  | some s => rfl

theorem writeNotedScalar_eq (policy : Policy) (inside : Inside) (notes : List (Property Value)) (s : Scalar)
    (deserialized : Bool) (name : Option String) (depth : Nat) :
    writeNotedScalar policy inside notes s name depth =
      (((Value.decorated (.scalar s) notes deserialized).node policy).formBody policy depth).write policy inside name := by
  generalize hv : Value.decorated (.scalar s) notes deserialized = v
  have hnotes : (v.node policy).notes = notes := hv ▸ rfl
  have htext : (v.node policy).shell.formText? policy = some (policy.knownTypes.textOf s) := hv ▸ rfl
  have hleaf : (v.node policy).shell.formLeaf? policy = some s := hv ▸ rfl
  have htype : (v.node policy).shell.typeName? policy.knownTypes = some (policy.knownTypes.typeNameOf s) := hv ▸ rfl
  have hwrite := writeNotes_eq policy inside v depth
  rw [show v.notes = notes from hnotes] at hwrite
  rw [writeNotedScalar, Node.formBody, hnotes, htext, hleaf, htype, hwrite]
  split
  · rfl
  · rw [Body.write, ← writeLeaf_eq]
    simp only [writeAround, writeLeaf, bind_assoc]

theorem answers_displayText (policy : Policy) (hv : v.base.PartsSettled) :
    ∃ answer, Answers answer (displayText policy v) ∧ answer.toOption.getD none = v.formText? policy := by
  unfold displayText Value.formText?
  cases hbase : v.base with
  | null | scalar | enum | list | dict | decorated => exact ⟨_, answers_pure _, rfl⟩
  | object typeName properties display =>
    rw [hbase] at hv
    cases display with
    | none => exact ⟨_, answers_pure _, rfl⟩
    | some text =>
      cases text with
      | ready text => exact ⟨.ok (some text), answers_pure _, rfl⟩
      | failed reason => exact ⟨.error reason, answers_pure _, rfl⟩
      | deferred getter => exact (hv.2 _ rfl).elim

/-- The string form of a value that is at hand, or known to be missing. -/
theorem gives_stringForm (hpolicy : policy.Unsourced) (hv : v.base.PartsSettled) :
    Gives (v.formText? policy) (stringForm policy v) := by
  obtain ⟨answer, hanswer, htext⟩ := answers_displayText policy hv
  rw [← htext, stringForm, hpolicy.stringForm?_eq]
  cases answer with
  | ok text => exact hanswer.gives.bind (gives_pure text)
  | error reason => exact hanswer.gives.bind ((gives_note _).bind (gives_pure none))

theorem gives_stringLeaf (hpolicy : policy.Unsourced) (hv : v.base.PartsSettled) :
    Gives (v.formLeaf? policy) (stringLeaf policy v) := by
  have hform : Gives ((v.formText? policy).map Scalar.string) (do return (← stringForm policy v).map Scalar.string) :=
    (gives_stringForm hpolicy hv).bind (gives_pure _)
  unfold stringLeaf Value.formLeaf?
  rw [hpolicy.stringSource?_eq_none]
  cases v.base with
  | scalar s => exact gives_pure _
  | null | enum | list | dict | object | decorated => exact hform

/-! ### The ways to write a value -/

theorem deserialized_of_container {shape : Shape} {decoration : Option Decoration}
    (hclass : classify policy v depth = .container shape decoration) :
    decoration.any Decoration.deserialized = v.isDeserialized := by
  rcases eq_of_classify_eq_container hclass with ⟨hshape, rfl⟩ | ⟨inner, notes, deserialized, rfl, -, rfl⟩
  · cases v with
    | list | dict => rfl
    | null | scalar | enum | object | decorated => cases hshape
  · rfl

theorem writeContainer_eq_body (hv : v.base.PartsSettled) {shape : Shape} {decoration : Option Decoration}
    (hclass : classify policy v depth = .container shape decoration) (name : Option String) :
    writeContainer policy inside v shape decoration name depth =
      ((v.node policy).containerBody policy Property.name depth shape.hasSidecar).write policy inside name := by
  obtain ⟨hshape, hnotes⟩ := base_and_notes_of_container hclass
  rw [writeContainer_eq, hnotes, writeItems_eq hshape hv, writeSelection_eq, writeNotes_eq,
    deserialized_of_container hclass, Node.containerBody, Body.write, Value.shell_node, Value.isDeserialized_shell,
    Value.typeName?_shell]
  congr 1
  split
  · exact List.forM_append.symm
  · exact List.forM_append.symm

theorem writeParts_eq (hchain : v.isChain = false) :
    writeParts policy inside v depth =
      ((v.node policy).selected policy Property.name depth).forM (Child.write policy inside) := by
  rw [← writeSelection_eq]
  unfold writeParts
  split
  · cases hchain
  · rfl

theorem writes_asString (hpolicy : policy.Unsourced) (hv : v.base.PartsSettled)
    (h : List.Forall₂ (fun c e => WritesInside [e] (Child.write policy inside c))
      ((v.node policy).formBody policy depth).children es) :
    Writes policy name (fun tag => ((v.node policy).formBody policy depth).element policy name es tag)
      (writeAsString policy inside v name depth) := by
  by_cases hempty : v.notes.isEmpty
  · have hwrites : Writes policy name _ (((v.node policy).formBody policy depth).write policy inside name) :=
      Body.writes h
    unfold writeAsString
    simp only [if_pos hempty]
    refine (closedSteps_quiet.stringForm policy v).then_writes (gives_stringForm hpolicy hv) ?_
    unfold Node.formBody at hwrites ⊢
    simp only [Value.notes_node, if_pos hempty, Value.shell_node, Value.formText?_shell,
      Value.typeName?_shell] at hwrites ⊢
    cases htext : v.formText? policy with
    | some text =>
      rw [htext] at hwrites
      exact hwrites
    | none =>
      rw [htext] at hwrites
      exact hwrites
  · rw [writeAsString_eq policy inside hempty]
    unfold Node.formBody at h ⊢
    simp only [Value.notes_node, if_neg hempty, Value.shell_node, Value.formLeaf?_shell, Value.typeName?_shell] at h ⊢
    refine WritesInside.around ?_ policy name (v.typeName? policy.knownTypes)
    refine (closedSteps_quiet.stringLeaf policy v).then_writesInside (gives_stringLeaf hpolicy hv) ?_
    rw [writeNotes_eq, writeLeaf_eq]
    exact writesInside_forM h

/-- A plain value is written as its body says, if what is inside it is written as known. -/
theorem writes_node (hpolicy : policy.Unsourced) (hv : v.Plain) (name : Option String) (depth : Nat)
    (h : List.Forall₂ (fun c e => WritesInside [e] (Child.write policy inside c)) (v.body policy depth).children es) :
    Writes policy name (fun tag => (v.body policy depth).element policy name es tag)
      (writeNode policy inside v name depth) := by
  have hbase : v.base.PartsSettled := (Value.hereditary_plain.base hv).parts
  have hbody : Writes policy name _ ((v.body policy depth).write policy inside name) := Body.writes h
  refine quiet_poll.then_writes gives_poll (quiet_visit.then_writes gives_visit ?_)
  cases hclass : classify policy v depth with
  | null =>
    obtain rfl := eq_of_classify_eq_null hclass
    exact hbody
  | scalar s =>
    obtain rfl := eq_of_classify_eq_scalar hclass
    exact hbody
  | notedScalar notes s =>
    obtain ⟨deserialized, rfl⟩ := eq_of_classify_eq_notedScalar hclass
    simp only [writeNotedScalar_eq policy inside notes s deserialized]
    exact hbody
  | container shape decoration =>
    have hdepth : depth ≠ 0 := by cases Strategy.suits_of_classify hclass <;> assumption
    simp only [writeContainer_eq_body hbase hclass, ← Value.body_of_shape hdepth (base_and_notes_of_container hclass).1]
    exact hbody
  | enumLike _ underlying =>
    obtain ⟨hdepth, typeName, hbase⟩ := eq_of_classify_eq_enumLike hclass
    rw [Value.body_of_enum hdepth hbase] at hbody ⊢
    exact hbody
  | asString =>
    rw [Value.body_of_asString hv.unchained hclass] at h ⊢
    exact writes_asString hpolicy hbase h
  | complex =>
    simp only [writeComplex_eq, writeParts_eq hv.unchained]
    rw [Value.body_of_complex hv.unchained hclass, ← Value.selected_node] at hbody ⊢
    exact hbody

/-! ### Properties -/

/-- A property that cannot be read, or that is null, is written empty. -/
theorem writesInside_absent {p : Property Value} (h : ∀ v ∈ p.value.results, v = .null) (hp : p.value.AtHand)
    (inside : Inside) (depth : Nat) :
    WritesInside [emptyProperty policy p] (writeProperty policy inside depth p) := by
  have hempty : Writes policy (some p.name) (fun _ => emptyProperty policy p) (writeEmptyProperty policy p) :=
    (records_emptyProperty policy p).writes fun w hw hname => ⟨w, rfl, hw, hname (Option.some_ne_none p.name)⟩
  obtain ⟨name, declaredType, value⟩ := p
  refine quiet_poll.then_writesInside gives_poll ?_
  cases value with
  | ready v =>
    obtain rfl := h v (List.mem_singleton_self v)
    refine (quiet_onRun _).then_writesInside (Fetch.answers_ofAnswer (.ok Value.null) _).gives ?_
    exact hempty.inside
  | failed reason =>
    refine (quiet_onRun _).then_writesInside (Fetch.answers_ofAnswer (.error reason) _).gives ?_
    exact (quiet_note _).then_writesInside (gives_note _) hempty.inside
  | deferred getter => exact hp.elim

/-- A property with a value that is not null is written as the value under its name. -/
theorem Writes.property {name : String} {declaredType : Option String} {v : Value} {e : String → Element} {depth : Nat}
    {inside : Inside} (h : Writes policy (some name) e (inside v (some name) depth)) (hnull : v.isNull = false) :
    WritesInside [e policy.names.property]
      (writeProperty policy inside depth { name, declaredType, value := .ready v }) := by
  refine quiet_poll.then_writesInside gives_poll ?_
  refine (quiet_onRun _).then_writesInside (Fetch.answers_ofAnswer (.ok v) _).gives ?_
  simp only [hnull]
  exact h.inside

end

end GraphMarkup
