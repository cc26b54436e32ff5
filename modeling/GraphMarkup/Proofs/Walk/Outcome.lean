import GraphMarkup.Proofs.Markup.Rendering
import GraphMarkup.Proofs.Walk.Cancelled
import GraphMarkup.Proofs.Walk.Closure
import GraphMarkup.Proofs.Walk.Recording

/-!
# How a walk ends

* `Yields` : a step of a walk that gives something with a property or is cancelled;
* `Element.Proper` : an element within the vocabulary of a policy;
* `closed_yields` : giving proper elements goes through walks;
* `grow_yields_proper` : the element of a value is proper, and so is every element inside it;
* `write_one_element` : writing a value records one balanced element, unless the walk is cancelled by a stop.
-/

namespace GraphMarkup

variable {α β : Type} {policy : Policy}

/-- A step that gives something with a property or is cancelled. No other error comes out of it. -/
def Yields (P : α → Prop) (give : WalkM α) : Prop :=
  ∀ w, match give w with
    | .ok a _ => P a
    | .error e _ => e = .cancelled

namespace Yields

variable {P : α → Prop} {Q : β → Prop} {give : WalkM α} {w w' : Walker}

theorem of_ok (h : Yields P give) {a : α} (hw : give w = .ok a w') : P a := by
  have hresult := h w
  rwa [hw] at hresult

theorem of_error (h : Yields P give) {e : Error} (hw : give w = .error e w') : e = .cancelled := by
  have hresult := h w
  rwa [hw] at hresult

theorem pure {a : α} (h : P a) : Yields P (pure a) := fun _ => h

theorem cancelled : Yields P (throw .cancelled) := fun _ => rfl

theorem bind {k : α → WalkM β} (h : Yields P give) (hk : ∀ a, P a → Yields Q (k a)) : Yields Q (give >>= k) := by
  intro w
  cases hgive : give w with
  | ok a w' =>
    rw [bind_of_ok hgive]
    exact hk a (h.of_ok hgive) w'
  | error e w' =>
    rw [bind_of_error hgive]
    exact h.of_error hgive

/-- A step that gives anything, followed by one that does not care what it is. -/
theorem after {k : α → WalkM β} (h : Yields (fun _ => True) give) (hk : ∀ a, Yields Q (k a)) : Yields Q (give >>= k) :=
  h.bind fun a _ => hk a

theorem get {k : Walker → WalkM β} (hk : ∀ w, Yields Q (k w)) : Yields Q (MonadState.get >>= k) := fun w => hk w w

theorem mono {P Q : α → Prop} (h : Yields P give) (hPQ : ∀ a, P a → Q a) : Yields Q give := by
  intro w
  cases hgive : give w with
  | ok a w' => exact hPQ a (h.of_ok hgive)
  | error e w' => exact h.of_error hgive

theorem and {P Q : α → Prop} (h : Yields P give) (h' : Yields Q give) :
    Yields (fun a => P a ∧ Q a) give := by
  intro w
  cases hgive : give w with
  | ok a w' => exact ⟨h.of_ok hgive, h'.of_ok hgive⟩
  | error e w' => exact h.of_error hgive

end Yields

/-! ## Steps through the graph -/

theorem yields_onRun (step : StateM Run α) : Yields (fun _ => True) (WalkM.onRun step) := fun _ => trivial

theorem yields_read (f : Fetch α) (request : Request) :
    Yields (fun answer => ∀ a, answer = .ok a → a ∈ f.results) (WalkM.onRun (f.read request)) :=
  fun _ _ ha => Fetch.mem_results_of_read ha

theorem yields_note (entry : Entry) : Yields (fun _ => True) (WalkM.note entry) := yields_onRun _

theorem yields_poll : Yields (fun _ => True) WalkM.poll := by
  refine Yields.get fun w => ?_
  by_cases hstopped : w.run.stopped
  · rw [if_pos hstopped]
    exact (yields_note _).after fun _ => Yields.cancelled
  · rw [if_neg hstopped]
    exact Yields.pure trivial

theorem yields_visit : Yields (fun _ => True) WalkM.visit := fun _ => trivial

/-- Steps through the graph are at worst cancelled. -/
theorem closedSteps_yields : ClosedSteps fun step => Yields (fun _ => True) step where
  pure _ := Yields.pure trivial
  bind h hk := h.after hk
  note := yields_note
  ask _ _ _ _ := yields_onRun _
  stopIf _ := yields_onRun _
  read _ _ := yields_onRun _
  form _ _ := yields_onRun _
  poll := yields_poll
  visit := yields_visit

/-! ## Elements within the vocabulary of a policy -/

def nameAttributes (policy : Policy) (name : Option String) : List (String × String) :=
  match name with
  | some name => [(policy.names.nameAttribute, name)]
  | none => []

/-- The tag of items or properties, at most a name and a type in this order, and not both text and children. -/
structure Element.Proper (policy : Policy) (e : Element) : Prop where
  tag : e.tag = policy.names.object ∨ e.tag = policy.names.property
  attributes : ∃ name typeName, e.attributes = nameAttributes policy name ++ typeAttributes policy typeName
  unmixed : e.Unmixed

/-- An element that is proper, as are all elements inside it. -/
abbrev AllProper (policy : Policy) (e : Element) : Prop := e.All (Element.Proper policy)

abbrev EachProper (policy : Policy) (es : List Element) : Prop := ∀ e ∈ es, AllProper policy e

theorem yields_start (policy : Policy) (name typeName : Option String) :
    Yields (fun start => start.Proper policy ∧ start.text = none ∧ start.children = [])
      (growStart policy name typeName) := by
  unfold growStart
  cases name with
  | some name => exact Yields.pure ⟨⟨.inr rfl, ⟨some name, typeName, rfl⟩, .inl rfl⟩, rfl, rfl⟩
  | none =>
    refine Yields.get fun w => ?_
    by_cases hdue : w.itemTagDue
    · rw [if_pos hdue]
      exact fun _ => ⟨⟨.inl rfl, ⟨none, typeName, rfl⟩, .inl rfl⟩, rfl, rfl⟩
    · rw [if_neg hdue]
      exact Yields.pure ⟨⟨.inr rfl, ⟨none, typeName, rfl⟩, .inl rfl⟩, rfl, rfl⟩

theorem yields_text (policy : Policy) (name typeName : Option String) (text : String) :
    Yields (AllProper policy) (growText policy name typeName text) := by
  refine (yields_start policy name typeName).bind fun start hstart => Yields.pure ?_
  obtain ⟨hproper, -, hchildren⟩ := hstart
  have hinside : EachProper policy start.children := by
    rw [hchildren]
    exact List.forall_mem_nil _
  exact .intro ⟨hproper.tag, hproper.attributes, .inr hchildren⟩ hinside

theorem Yields.around {give : WalkM (List Element)} (h : Yields (EachProper policy) give)
    (name typeName : Option String) : Yields (AllProper policy) (growAround policy name typeName give) := by
  refine (yields_start policy name typeName).bind fun start hstart => h.bind fun children hchildren => Yields.pure ?_
  obtain ⟨hproper, htext, -⟩ := hstart
  exact .intro ⟨hproper.tag, hproper.attributes, .inl htext⟩ hchildren

/-! ## Elements in a row -/

section Rows

variable {P : Element → Prop}

theorem yields_nothing : Yields (fun es => ∀ e ∈ es, P e) (return []) := Yields.pure (List.forall_mem_nil _)

theorem Yields.join {give give' : WalkM (List Element)} (h : Yields (fun es => ∀ e ∈ es, P e) give)
    (h' : Yields (fun es => ∀ e ∈ es, P e) give') :
    Yields (fun es => ∀ e ∈ es, P e) (do return (← give) ++ (← give')) :=
  h.bind fun _ hes => h'.bind fun _ hes' => Yields.pure (List.forall_mem_append.2 ⟨hes, hes'⟩)

theorem Yields.one {give : WalkM Element} (h : Yields P give) :
    Yields (fun es => ∀ e ∈ es, P e) (do return [← give]) :=
  h.bind fun _ he => Yields.pure (List.forall_mem_singleton.2 he)

/-- What is grown differently if a promotion is due. -/
theorem Yields.promote {P : List Element → Prop} {give give' : WalkM (List Element)} (h : Yields P give)
    (h' : Yields P give') :
    Yields P (do
      if (← MonadState.get).promotionDue then
        modify fun w => { w with promotionDue := false }
        give
      else
        give') := by
  refine Yields.get fun w => ?_
  split
  · exact Yields.after (fun _ => trivial) fun _ => h
  · exact h'

theorem yields_gather {body : α → WalkM (List Element)} {as : List α}
    (h : ∀ a ∈ as, Yields (fun es => ∀ e ∈ es, P e) (body a)) : Yields (fun es => ∀ e ∈ es, P e) (gather body as) := by
  induction as with
  | nil => exact yields_nothing
  | cons a as ih => exact (h a (List.mem_cons_self ..)).join (ih fun b hb => h b (List.mem_cons_of_mem _ hb))

theorem yields_gatherSteps {body : α → WalkM (List Element)} {id index : Nat} {endStops : Bool} {steps : List (Step α)}
    (h : ∀ a ∈ (Enumeration.mk steps endStops).results, Yields (fun es => ∀ e ∈ es, P e) (body a)) :
    Yields (fun es => ∀ e ∈ es, P e) (gatherSteps id endStops body index steps) := by
  induction steps generalizing index with
  | nil => exact (yields_onRun _).after fun _ => yields_nothing
  | cons step steps ih =>
    obtain ⟨outcome, stops⟩ := step
    refine (yields_onRun _).after fun _ => ?_
    cases outcome with
    | ok item => exact (h item (List.mem_cons_self ..)).join (ih fun a ha => h a (List.mem_cons_of_mem _ ha))
    | error reason => exact (yields_note _).after fun _ => yields_nothing

theorem yields_gatherItems {body : α → WalkM (List Element)} {items : Sequence α}
    (h : ∀ a ∈ items.results, Yields (fun es => ∀ e ∈ es, P e) (body a)) :
    Yields (fun es => ∀ e ∈ es, P e) (gatherItems items body) := by
  cases items with
  | ready items => exact yields_gather h
  | deferred enumerator =>
    refine (yields_read (.deferred enumerator) .enumerator).bind fun answer hanswer => ?_
    cases answer with
    | ok enumeration => exact yields_gatherSteps fun a ha => h a (List.mem_flatMap.2 ⟨enumeration, hanswer _ rfl, ha⟩)
    | error reason => exact (yields_note _).after fun _ => yields_nothing

end Rows

/-! ## Whole values -/

theorem proper_emptyProperty (policy : Policy) (p : Property Value) : AllProper policy (emptyProperty policy p) :=
  .intro ⟨.inr rfl, ⟨some p.name, p.typeName? policy.knownTypes, rfl⟩, .inl rfl⟩ (by simp [emptyProperty])

/-- Giving proper elements goes through walks. -/
theorem closed_yields (policy : Policy) :
    Closed policy (fun step => Yields (fun _ => True) step) (fun _ => Yields (AllProper policy))
      (Yields (EachProper policy)) where
  toClosedSteps := closedSteps_yields
  one_after h hk := h.after hk
  row_after h hk := h.after hk
  cancelled _ := Yields.cancelled
  absent p := Yields.pure (proper_emptyProperty policy p)
  text := yields_text policy
  around h := h.around
  nothing := yields_nothing
  one h := h.one
  join h h' := h.join h'
  promote h h' := h.promote h'

/-- The element of a value is proper, and so is every element inside it. Only a stop comes in its way. -/
theorem grow_yields_proper (policy : Policy) (value : Value) (name : Option String) (depth : Nat) :
    Yields (AllProper policy) (grow policy value name depth) :=
  (closed_yields policy).grow value name depth

/-- One call of the walk records one balanced element, whatever the state of the recorder, or is cancelled by a stop that
has been requested. -/
theorem write_one_element (policy : Policy) (value : Value) (name : Option String) (depth : Nat) (w : Walker) :
    (∃ (e : Element) (w' : Walker), write policy value name depth w = .ok () w' ∧
      w'.recorder.events = w.recorder.events ++ e.events.toArray ∧
      Writer.replay e.events w.recorder = .ok () w'.recorder ∧ w'.recorder.depth = w.recorder.depth ∧
      ∀ before, before <+: e.events →
        ∃ r, Writer.replay before w.recorder = .ok () r ∧ w.recorder.depth ≤ r.depth) ∨
    ∃ w', write policy value name depth w = .error .cancelled w' ∧ w'.run.stopped := by
  have hrecords := write_records_grow policy value name depth
  cases hgrow : grow policy value name depth w with
  | error e w' =>
    obtain ⟨r, hwrite⟩ := hrecords.of_error hgrow w.recorder
    obtain rfl := (grow_yields_proper policy value name depth).of_error hgrow
    exact .inr ⟨_, hwrite, write_needs_stop policy value name depth w _ hwrite⟩
  | ok e w' =>
    have hwrite := hrecords.of_ok hgrow w.recorder
    obtain ⟨hdepth, hbefore⟩ := Recorder.steady_events e w.recorder
    refine .inl ⟨e, _, hwrite, Recorder.events_append w.recorder e.events, Recorder.replay_events e w.recorder,
      hdepth, fun before hinitial => ?_⟩
    exact ⟨_, Recorder.replay_of_prefix (Recorder.replay_events e w.recorder) hinitial, hbefore before hinitial⟩

end GraphMarkup
