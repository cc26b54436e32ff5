import GraphMarkup.Proofs.Graph.Settled
import GraphMarkup.Proofs.Walk.Recording
import GraphMarkup.Walk.Levels

/-!
# Deferring makes no difference

* `Walker.Matches`, `Echoed` : a step after which another one gives the same, unless a stop is requested, though it may
  make requests that the other does not;
* `Lasting`, `Calm` : a requested stop stays requested on the first side, and none is requested on the other;
* `Echoed.reading`, `Echoed.ahead` : steps that read parts, and requests that only one side makes;
* `echoed_property`, `echoed_items`, ... : the parts of an element;
* `echoed_node` : growing the element of a graph is echoed by growing that of what the graph settles to;
* `write_settled` : unless a stop is requested, both are written as the same events.
-/

namespace GraphMarkup

variable {α β γ : Type}

/-! ## Steps and their echoes -/

/-- States in which no stop is requested, with the same tags and promotions due. -/
structure Walker.Matches (w w' : Walker) : Prop where
  running : ¬ w.run.stopped
  running' : ¬ w'.run.stopped
  itemTagDue : w.itemTagDue = w'.itemTagDue
  promotionDue : w.promotionDue = w'.promotionDue

def Lasting (step : WalkM α) : Prop := ∀ w : Walker, w.run.stopped → (endState (step w)).run.stopped

/-- A stop that is requested in a first step lasts to the end of the rest. -/
theorem stopped_bind {step : WalkM α} {k : α → WalkM β} (hk : ∀ a, Lasting (k a)) {w : Walker}
    (h : (endState (step w)).run.stopped) : (endState ((step >>= k) w)).run.stopped := by
  cases hstep : step w with
  | ok a w₁ =>
    rw [hstep] at h
    rw [bind_of_ok hstep]
    exact hk a w₁ h
  | error e w₁ =>
    rw [hstep] at h
    rwa [bind_of_error hstep]

def Calm (step : WalkM α) : Prop := ∀ w : Walker, ¬ w.run.stopped → ¬ (endState (step w)).run.stopped

theorem Calm.bind {step : WalkM α} {k : α → WalkM β} (h : Calm step) (hk : ∀ a, Calm (k a)) : Calm (step >>= k) := by
  intro w hrunning
  have hstep := h w hrunning
  cases hresult : step w with
  | ok a w₁ =>
    rw [hresult] at hstep
    rw [bind_of_ok hresult]
    exact hk a w₁ hstep
  | error e w₁ =>
    rw [hresult] at hstep
    rwa [bind_of_error hresult]

/-- A step after which another one gives the same, in every state that matches, unless a stop is requested. The other one
requests none. -/
structure Echoed (give give' : WalkM α) : Prop where
  lasting : Lasting give
  calm : Calm give'
  echoed : ∀ w w', w.Matches w' → ¬ (endState (give w)).run.stopped →
    ∃ a w₁ w₁', give w = .ok a w₁ ∧ give' w' = .ok a w₁' ∧ w₁.Matches w₁'

namespace Echoed

protected theorem pure (a : α) : Echoed (pure a) (pure a) :=
  ⟨fun _ hstopped => hstopped, fun _ hrunning => hrunning, fun w w' hmatches _ => ⟨a, w, w', rfl, rfl, hmatches⟩⟩

theorem bind {give give' : WalkM α} {k k' : α → WalkM β} (h : Echoed give give') (hk : ∀ a, Echoed (k a) (k' a)) :
    Echoed (give >>= k) (give' >>= k') := by
  have hrest (w : Walker) (hstopped : (endState (give w)).run.stopped) : (endState ((give >>= k) w)).run.stopped :=
    stopped_bind (fun a => (hk a).lasting) hstopped
  refine ⟨fun w hstopped => hrest w (h.lasting w hstopped), h.calm.bind fun a => (hk a).calm,
    fun w w' hmatches hrunning => ?_⟩
  obtain ⟨a, w₁, w₁', hgive, hgive', hmatches'⟩ := h.echoed w w' hmatches fun hstopped => hrunning (hrest w hstopped)
  rw [bind_of_ok hgive] at hrunning ⊢
  rw [bind_of_ok hgive']
  exact (hk a).echoed w₁ w₁' hmatches' hrunning

protected theorem get {k k' : Walker → WalkM β} (hk : ∀ w w' : Walker, w.itemTagDue = w'.itemTagDue →
    w.promotionDue = w'.promotionDue → Echoed (k w) (k' w')) :
    Echoed (get >>= k) (get >>= k') :=
  ⟨fun w => (hk w w rfl rfl).lasting w, fun w => (hk w w rfl rfl).calm w,
    fun w w' hmatches => (hk w w' hmatches.itemTagDue hmatches.promotionDue).echoed w w' hmatches⟩

protected theorem modify (f : Walker → Walker) (hrun : ∀ w, (f w).run = w.run)
    (hdue : ∀ w w' : Walker, w.Matches w' →
      (f w).itemTagDue = (f w').itemTagDue ∧ (f w).promotionDue = (f w').promotionDue) :
    Echoed (modify f) (modify f) := by
  refine ⟨fun w hstopped => ?_, fun w hrunning => ?_, fun w w' hmatches _ => ⟨(), f w, f w', rfl, rfl, ?_⟩⟩
  · show (f w).run.stopped
    rwa [hrun w]
  · show ¬ (f w).run.stopped
    rwa [hrun w]
  · obtain ⟨hitem, hpromotion⟩ := hdue w w' hmatches
    refine ⟨?_, ?_, hitem, hpromotion⟩
    · rw [hrun w]
      exact hmatches.running
    · rw [hrun w']
      exact hmatches.running'

/-- Reading, where both sides go on with what they have read. -/
theorem reading {a : α} {b : β} {step : StateM Run α} {step' : StateM Run β} {k : α → WalkM γ} {k' : β → WalkM γ}
    (h : Repeats a step) (h' : Answers b step') (hk : Echoed (k a) (k' b)) :
    Echoed (WalkM.onRun step >>= k) (WalkM.onRun step' >>= k') := by
  have hleft (w : Walker) : (WalkM.onRun step >>= k) w = k a { w with run := (step w.run).2 } := by
    rw [WalkM.onRun_bind, (h w.run).1]
  have hright (w : Walker) : (WalkM.onRun step' >>= k') w = k' b { w with run := (step' w.run).2 } := by
    rw [WalkM.onRun_bind, (h' w.run).1]
  have hcalm (w : Walker) (hrunning : ¬ w.run.stopped) : ¬ (step' w.run).2.stopped := by
    rwa [(h' w.run).2]
  refine ⟨fun w hstopped => ?_, fun w hrunning => ?_, fun w w' hmatches hrunning => ?_⟩
  · rw [hleft]
    exact hk.lasting _ ((h w.run).2 hstopped)
  · rw [hright]
    exact hk.calm _ (hcalm w hrunning)
  · rw [hleft] at hrunning ⊢
    rw [hright]
    refine hk.echoed _ _ ⟨fun hstopped => ?_, hcalm w' hmatches.running', hmatches.itemTagDue, hmatches.promotionDue⟩
      hrunning
    exact hrunning (hk.lasting _ hstopped)

/-- Requests that only the first side makes, and after which it goes on alike in whatever run. -/
theorem ahead {step : StateM Run α} {k : α → WalkM γ} {give' : WalkM γ}
    (h : ∀ run, run.stopped → (step run).2.stopped) (hk : ∀ run, Echoed (k (step run).1) give') :
    Echoed (WalkM.onRun step >>= k) give' := by
  refine ⟨fun w hstopped => ?_, (hk default).calm, fun w w' hmatches hrunning => ?_⟩
  · exact (hk w.run).lasting _ (h w.run hstopped)
  · rw [WalkM.onRun_bind] at hrunning ⊢
    refine (hk w.run).echoed _ _ ⟨fun hstopped => ?_, hmatches.running', hmatches.itemTagDue, hmatches.promotionDue⟩
      hrunning
    exact hrunning ((hk w.run).lasting _ hstopped)

end Echoed

theorem repeats_note (entry : Entry) : Repeats () (modify (Run.note entry)) := fun _ => ⟨rfl, id⟩

theorem answers_note (entry : Entry) : Answers () (modify (Run.note entry)) := fun _ => ⟨rfl, rfl⟩

theorem echoed_note (entry : Entry) : Echoed (WalkM.note entry) (WalkM.note entry) :=
  Echoed.reading (repeats_note entry) (answers_note entry) (Echoed.pure ())

theorem echoed_poll : Echoed WalkM.poll WalkM.poll := by
  refine ⟨fun w hstopped => ?_, fun w hrunning => ?_, fun w w' hmatches _ => ?_⟩
  · rw [WalkM.poll_of_stopped hstopped]
    exact hstopped
  · rwa [WalkM.poll_of_running hrunning]
  · exact ⟨(), w, w', WalkM.poll_of_running hmatches.running, WalkM.poll_of_running hmatches.running', hmatches⟩

theorem echoed_visit : Echoed WalkM.visit WalkM.visit :=
  (Echoed.modify (fun w => { w with visited := w.visited + 1 }) (fun _ => rfl)
    fun _ _ hmatches => ⟨hmatches.itemTagDue, hmatches.promotionDue⟩).bind fun _ => echoed_note .visited

/-! ## Loops -/

section Loops

variable {body : α → WalkM (List Element)} {body' : β → WalkM (List Element)} {f : α → β}

theorem Echoed.join {give give' rest rest' : WalkM (List Element)} (h : Echoed give give') (hrest : Echoed rest rest') :
    Echoed (do return (← give) ++ (← rest)) (do return (← give') ++ (← rest')) :=
  h.bind fun _ => hrest.bind fun _ => Echoed.pure _

theorem echoed_gather {as : List α} (h : ∀ a ∈ as, Echoed (body a) (body' (f a))) :
    Echoed (gather body as) (gather body' (as.map f)) := by
  induction as with
  | nil => exact Echoed.pure []
  | cons a as ih => exact (h a (List.mem_cons_self ..)).join (ih fun b hb => h b (List.mem_cons_of_mem _ hb))

theorem echoed_gatherSteps {steps : List (Step α)} (h : ∀ a ∈ Step.items steps, Echoed (body a) (body' (f a)))
    (id : Nat) (endStops : Bool) (index : Nat) :
    Echoed (gatherSteps id endStops body index steps) (gather body' ((Step.items steps).map f)) := by
  induction steps generalizing index with
  | nil => exact Echoed.ahead (fun _ hstopped => Run.stopped_stopIf hstopped endStops) fun _ => Echoed.pure []
  | cons step steps ih =>
    obtain ⟨outcome, stops⟩ := step
    refine Echoed.ahead (fun run hstopped => ?_) fun _ => ?_
    · exact Run.stopped_stopIf (show (run.ask _ _ _).stopped from hstopped) stops
    cases outcome with
    | error reason => exact Echoed.ahead (fun _ hstopped => hstopped) fun _ => Echoed.pure []
    | ok item =>
      have hrest := ih (fun b hb => h b (List.mem_cons_of_mem _ hb)) (index + 1)
      exact (h item (List.mem_cons_self ..)).join hrest

/-- What an enumerator passes on, and the same items at hand. -/
theorem echoed_gatherItems {items : Sequence α} (hitems : items.Steady)
    (h : ∀ a ∈ items.first, Echoed (body a) (body' (f a))) :
    Echoed (gatherItems items body) (gatherItems (.ready (items.first.map f)) body') := by
  cases items with
  | ready items => exact echoed_gather h
  | deferred enumerator =>
    refine Echoed.ahead (fun _ => (Fetch.deferred enumerator).stopped_read .enumerator) fun run => ?_
    rw [← hitems run.reads] at h ⊢
    rw [Fetch.read_deferred]
    cases hanswer : enumerator.answer (run.reads enumerator.id + 1) with
    | ok enumeration =>
      rw [Sequence.items_of_ok hanswer] at h ⊢
      exact echoed_gatherSteps h enumerator.id enumeration.endStops 0
    | error reason =>
      rw [Sequence.items_of_error hanswer]
      exact Echoed.ahead (fun _ hstopped => hstopped) fun _ => Echoed.pure []

end Loops

/-! ## Markup -/

theorem echoed_start (policy : Policy) (name typeName : Option String) :
    Echoed (growStart policy name typeName) (growStart policy name typeName) := by
  unfold growStart
  cases name with
  | some name => exact Echoed.pure _
  | none =>
    refine Echoed.get fun w w' hitem _ => ?_
    rw [← hitem]
    by_cases hdue : w.itemTagDue
    · simp only [if_pos hdue]
      exact (Echoed.modify (fun w => { w with itemTagDue := false }) (fun _ => rfl)
        fun _ _ hmatches => ⟨rfl, hmatches.promotionDue⟩).bind fun _ => Echoed.pure _
    · simp only [if_neg hdue]
      exact Echoed.pure _

theorem echoed_text (policy : Policy) (name typeName : Option String) (text : String) :
    Echoed (growText policy name typeName text) (growText policy name typeName text) :=
  (echoed_start policy name typeName).bind fun _ => Echoed.pure _

theorem Echoed.around {give give' : WalkM (List Element)} (h : Echoed give give') (policy : Policy)
    (name typeName : Option String) : Echoed (growAround policy name typeName give) (growAround policy name typeName give') :=
  (echoed_start policy name typeName).bind fun _ => h.bind fun _ => Echoed.pure _

theorem echoed_null (policy : Policy) (name : Option String) : Echoed (growNull policy name) (growNull policy name) :=
  (Echoed.pure []).around policy name none

theorem echoed_scalar (policy : Policy) (name : Option String) (scalar : Scalar) :
    Echoed (growScalar policy name scalar) (growScalar policy name scalar) := echoed_text policy name _ _

theorem echoed_leaf (policy : Policy) (leaf : Option Scalar) : Echoed (growLeaf policy leaf) (growLeaf policy leaf) := by
  cases leaf with
  | some leaf => exact (echoed_scalar policy none leaf).bind fun _ => Echoed.pure _
  | none => exact Echoed.pure []

/-! ## Views of the hints -/

section Hints

variable (policy : Policy) (v : Value)

theorem depthFor_settled (depth : Nat) : policy.depthFor v.settled depth = policy.depthFor v depth := by
  rw [Policy.depthFor, Policy.depthFor, hintsFor?_settled]

theorem selection_settled : policy.selection v.settled = (policy.selection v).map Property.settled := by
  rw [Policy.selection, Policy.selection, hintsFor?_settled, Value.properties_settled]
  split
  · rw [List.map_filterMap]
    simp only [find?_settled]
  · rfl

theorem stringSource?_settled : policy.stringSource? v.settled = policy.stringSource? v := by
  rw [Policy.stringSource?, Policy.stringSource?, hintsFor?_settled]

end Hints

theorem Shape.hasSidecar_settled (shape : Shape) : shape.settled.hasSidecar = shape.hasSidecar := by
  cases shape with
  | dictionary => rfl
  | list kind => cases kind <;> rfl

/-! ## String forms -/

theorem echoed_stringForm {v : Value} (hv : v.Steady) (policy : Policy) :
    Echoed (stringForm policy v) (stringForm policy v.settled) := by
  obtain ⟨answer, hanswer, hanswer'⟩ := hv.stringForm?_settled policy
  refine Echoed.reading hanswer hanswer' ?_
  cases answer with
  | ok text => exact Echoed.pure text
  | error reason => exact (echoed_note _).bind fun _ => Echoed.pure none

theorem echoed_stringLeaf {v : Value} (hv : v.Steady) (policy : Policy) :
    Echoed (stringLeaf policy v) (stringLeaf policy v.settled) := by
  have hform : Echoed (do return (← stringForm policy v).map Scalar.string)
      (do return (← stringForm policy v.settled).map Scalar.string) :=
    (echoed_stringForm hv policy).bind fun _ => Echoed.pure _
  unfold stringLeaf
  rw [Value.base_settled, stringSource?_settled]
  cases hbase : v.base with
  | scalar s =>
    cases policy.stringSource? v with
    | none => exact Echoed.pure _
    | some source => exact hform
  | null | enum | list | dict | decorated => exact hform
  | object =>
    rw [Value.settled_object]
    exact hform

/-! ## Properties and items -/

/-- Ways to grow steady values below a given one, of which one echoes the other. -/
def EchoedBelow (inside inside' : InsideElement) (v : Value) : Prop :=
  ∀ c : Value, c.Steady → c.height < v.height → ∀ name depth,
    Echoed (inside c name depth) (inside' c.settled name depth)

section Parts

variable {policy : Policy} {inside inside' : InsideElement} {v : Value}

theorem echoed_property {p : Property Value} (hp : p.value.Steady)
    (h : ∀ c ∈ p.value.results, ∀ name depth, Echoed (inside c name depth) (inside' c.settled name depth)) (depth : Nat) :
    Echoed (growProperty policy inside depth p) (growProperty policy inside' depth p.settled) := by
  have hempty (hnull : ∀ v, p.value.first = .ok v → v.isNull) :
      Echoed (pure (emptyProperty policy p)) (pure (emptyProperty policy p.settled)) := by
    have hsame : emptyProperty policy p.settled = emptyProperty policy p := by
      rw [emptyProperty, emptyProperty, Property.typeName?_settled hnull]
      rfl
    rw [hsame]
    exact Echoed.pure _
  refine echoed_poll.bind fun _ => Echoed.reading (hp.repeats _) (Fetch.answers_ofAnswer _ _) ?_
  cases hfirst : p.value.first with
  | ok value =>
    show Echoed (if value.isNull then _ else _) (if value.settled.isNull then _ else _)
    rw [Value.isNull_settled]
    by_cases hnull : value.isNull
    · rw [if_pos hnull, if_pos hnull]
      refine hempty fun v hv => ?_
      rw [hfirst] at hv
      cases hv
      exact hnull
    · rw [if_neg hnull, if_neg hnull]
      exact h value (Fetch.mem_results_of_first hfirst) _ depth
  | error reason =>
    refine (echoed_note _).bind fun _ => hempty fun v hv => ?_
    rw [hfirst] at hv
    cases hv

theorem echoed_properties {ps : List (Property Value)} (hps : ∀ p ∈ ps, p ∈ v.properties) (hv : v.Steady)
    (h : EchoedBelow inside inside' v) (depth : Nat) :
    Echoed (growProperties policy inside depth ps) (growProperties policy inside' depth (ps.map Property.settled)) := by
  refine echoed_gather fun p hp => ?_
  have hresults (c : Value) (hc : c ∈ p.value.results) : ∀ name depth,
      Echoed (inside c name depth) (inside' c.settled name depth) :=
    h c (Value.Steady.hereditary.property hv (hps p hp) hc) (Value.height_lt_of_mem_properties (hps p hp) hc)
  exact (echoed_property (hv.property (hps p hp)) hresults (depth - 1)).bind fun _ => Echoed.pure _

theorem echoed_notes (hv : v.Steady) (h : EchoedBelow inside inside' v) (depth : Nat) :
    Echoed (growProperties policy inside depth v.notes)
      (growProperties policy inside' depth (v.notes.map Property.settled)) :=
  echoed_properties (fun _ hp => List.mem_append_right _ hp) hv h depth

theorem echoed_selection (hv : v.Steady) (h : EchoedBelow inside inside' v) (depth : Nat) :
    Echoed (growSelection policy inside v depth) (growSelection policy inside' v.settled depth) := by
  rw [growSelection, growSelection, depthFor_settled, selection_settled]
  exact echoed_properties (fun _ hp => Policy.mem_properties_of_mem_selection hp) hv h _

theorem echoed_items {shape : Shape} (hshape : v.base.shape? = some shape) (hv : v.Steady)
    (h : EchoedBelow inside inside' v) (depth : Nat) :
    Echoed (growItems policy inside depth shape) (growItems policy inside' depth shape.settled) := by
  have hsteady := hv.base.parts
  have hitems (item : Option String × Value) (hitem : item ∈ shape.items policy fun _ => 0) :
      Echoed (inside item.2 item.1 depth) (inside' item.2.settled item.1 depth) := by
    have hchild := Shape.mem_children_of_mem_items hshape hitem
    exact h item.2 (Value.Steady.hereditary _ hv.base _ hchild)
      (Nat.lt_of_lt_of_le (Value.height_lt_of_mem_children hchild) v.height_base_le) _ depth
  cases hcase : v.base with
  | dict typeName entries =>
    rw [hcase] at hshape hsteady
    obtain rfl := Option.some.inj hshape
    refine echoed_gatherItems hsteady fun entry hentry => ?_
    have hkey := hitems (some policy.names.key, entry.1) (List.mem_flatMap.2 ⟨entry, hentry, by simp⟩)
    have hvalue := hitems (some policy.names.value, entry.2) (List.mem_flatMap.2 ⟨entry, hentry, by simp⟩)
    exact hkey.bind fun _ => hvalue.bind fun _ => Echoed.pure _
  | list kind typeName elements properties =>
    rw [hcase] at hshape hsteady
    obtain rfl := Option.some.inj hshape
    refine echoed_gatherItems hsteady.1 fun item hitem => ?_
    have hitem' := hitems (none, item) (List.mem_flatMap.2 ⟨item, hitem, List.mem_singleton_self _⟩)
    exact hitem'.bind fun _ => Echoed.pure _
  | null | scalar | enum | object | decorated =>
    rw [hcase] at hshape
    cases hshape

/-! ## The ways to write a value -/

theorem echoed_contents {shape : Shape} {decoration : Option Decoration} {depth : Nat}
    (hclass : classify policy v depth = .container shape decoration) (hv : v.Steady)
    (h : EchoedBelow inside inside' v) :
    Echoed (growContents policy inside v shape decoration depth)
      (growContents policy inside' v.settled shape.settled
        (decoration.map fun d => { d with notes := d.notes.map Property.settled }) depth) := by
  obtain ⟨hbase, hnotes⟩ := base_and_notes_of_container hclass
  have hdeserialized : (decoration.map fun d => { d with notes := d.notes.map Property.settled }).any
      Decoration.deserialized = decoration.any Decoration.deserialized := by
    cases decoration <;> rfl
  have hnotes' : ((decoration.map fun d => { d with notes := d.notes.map Property.settled }).map
      Decoration.notes).getD [] = v.notes.map Property.settled := by
    rw [← hnotes]
    cases decoration <;> rfl
  refine (echoed_items hbase hv h depth).bind fun items => ?_
  rw [Shape.hasSidecar_settled, hdeserialized, hnotes, hnotes']
  by_cases hwhole : (shape.hasSidecar || decoration.any Decoration.deserialized) = true
  · simp only [if_pos hwhole]
    exact (echoed_selection hv h depth).bind fun _ => Echoed.pure _
  · simp only [if_neg hwhole]
    exact (echoed_notes hv h depth).bind fun _ => Echoed.pure _

theorem echoed_string (hv : v.Steady) (h : EchoedBelow inside inside' v) (name : Option String) (depth : Nat) :
    Echoed (growString policy inside v name depth) (growString policy inside' v.settled name depth) := by
  unfold growString
  rw [Value.notes_settled, Value.typeName?_settled, List.isEmpty_map]
  by_cases hempty : v.notes.isEmpty
  · rw [if_pos hempty, if_pos hempty]
    refine (echoed_stringForm hv policy).bind fun text => ?_
    cases text with
    | some text => exact echoed_text policy name _ text
    | none => exact echoed_null policy name
  · rw [if_neg hempty, if_neg hempty]
    exact ((echoed_stringLeaf hv policy).bind fun leaf => (echoed_leaf policy leaf).join (echoed_notes hv h depth)).around
      policy name _

theorem echoed_promoted (hv : v.Steady) (h : EchoedBelow inside inside' v) {depth : Nat}
    (hbase : Echoed (inside v.base none depth) (inside' v.base.settled none depth)) :
    Echoed (growPromoted policy inside v depth) (growPromoted policy inside' v.settled depth) := by
  have hrow : Echoed (do return (← inside v.base none depth) :: (← growProperties policy inside depth v.notes))
      (do return (← inside' v.base.settled none depth) :: (← growProperties policy inside' depth v.settled.notes)) := by
    rw [Value.notes_settled]
    exact hbase.bind fun _ => (echoed_notes hv h depth).bind fun _ => Echoed.pure _
  unfold growPromoted
  rw [Value.base_settled]
  cases hcase : v.base with
  | object => exact echoed_selection hv h depth
  | null | scalar | enum | list | dict | decorated =>
    rw [hcase] at hrow
    exact hrow

theorem echoed_chain {inner : Value} {notes : List (Property Value)} {deserialized : Bool}
    (hv : (Value.decorated inner notes deserialized).Steady)
    (h : EchoedBelow inside inside' (Value.decorated inner notes deserialized)) (depth : Nat) :
    Echoed (growChain policy inside (.decorated inner notes deserialized) inner notes depth)
      (growChain policy inside' (Value.decorated inner notes deserialized).settled inner.settled
        (notes.map Property.settled) depth) := by
  have hinner : Echoed (inside inner none depth) (inside' inner.settled none depth) :=
    h inner (Value.Steady.hereditary _ hv inner (List.mem_cons_self ..)) (Value.height_inner_lt ..) none depth
  have hbase : Echoed (inside inner.base none depth) (inside' inner.base.settled none depth) :=
    h inner.base hv.base (Nat.lt_of_le_of_lt inner.height_base_le (Value.height_inner_lt ..)) none depth
  have hnotes : ∀ p ∈ notes, p ∈ (Value.decorated inner notes deserialized).properties :=
    fun _ hp => List.mem_append_right _ (List.mem_append_right _ hp)
  refine Echoed.get fun w w' _ hpromotion => ?_
  rw [← hpromotion]
  by_cases hdue : w.promotionDue
  · simp only [if_pos hdue]
    exact (Echoed.modify (fun w => { w with promotionDue := false }) (fun _ => rfl)
      fun _ _ hmatches => ⟨hmatches.itemTagDue, rfl⟩).bind fun _ => echoed_promoted hv h hbase
  · simp only [if_neg hdue]
    exact hinner.bind fun _ => (echoed_properties hnotes hv h depth).bind fun _ => Echoed.pure _

theorem echoed_parts (hv : v.Steady) (h : EchoedBelow inside inside' v) (depth : Nat) :
    Echoed (growParts policy inside v depth) (growParts policy inside' v.settled depth) := by
  by_cases hchain : v.isChain
  · obtain ⟨inner, notes, deserialized, outerNotes, outerDeserialized, rfl⟩ := Value.exists_of_isChain hchain
    have hparts := @echoed_chain policy inside inside' _ _ _ hv h depth
    rw [Value.settled_decorated, Value.settled_decorated] at hparts ⊢
    exact hparts
  · have hchain' : ¬ v.settled.isChain := by rwa [Value.isChain_settled]
    rw [growParts_of_not_chain policy inside hchain, growParts_of_not_chain policy inside' hchain']
    exact echoed_selection hv h depth

/-- The element of a graph, and that of what the graph settles to. -/
theorem echoed_node (hv : v.Steady) (h : EchoedBelow inside inside' v) (name : Option String) (depth : Nat) :
    Echoed (growNode policy inside v name depth) (growNode policy inside' v.settled name depth) := by
  refine echoed_poll.bind fun _ => echoed_visit.bind fun _ => ?_
  rw [classify_settled]
  cases hclass : classify policy v depth with
  | null => exact echoed_null policy name
  | scalar scalar => exact echoed_scalar policy name scalar
  | notedScalar notes scalar =>
    obtain ⟨deserialized, rfl⟩ := eq_of_classify_eq_notedScalar hclass
    simp only [Strategy.settled, List.isEmpty_map]
    by_cases hempty : notes.isEmpty
    · simp only [if_pos hempty]
      exact echoed_scalar policy name scalar
    · simp only [if_neg hempty]
      exact Echoed.around ((echoed_scalar policy none scalar).bind fun _ =>
        (echoed_notes hv h depth).bind fun _ => Echoed.pure _) policy name _
  | container shape decoration =>
    simp only [Strategy.settled, Value.typeName?_settled]
    exact (echoed_contents hclass hv h).around policy name _
  | enumLike _ underlying => exact echoed_scalar policy name underlying
  | asString => exact echoed_string hv h name depth
  | complex =>
    simp only [Strategy.settled, Value.typeName?_settled]
    exact (echoed_parts hv h depth).around policy name _

end Parts

/-! ## Whole graphs -/

/-- A step that records what another one gives leaves the run as that one does. -/
theorem Records.run_eq {view : α → List Event} {step : WalkM Unit} {give : WalkM α} (h : Records view step give)
    (w : Walker) : (endState (step w)).run = (endState (give w)).run := by
  cases hgive : give w with
  | ok a w' =>
    have hstep : step w = _ := h.of_ok hgive w.recorder
    rw [hstep]
    rfl
  | error e w' =>
    obtain ⟨r, hstep⟩ := h.of_error hgive w.recorder
    have hstep : step w = _ := hstep
    rw [hstep]
    rfl

theorem echoed_within (policy : Policy) {levels : Nat} {v : Value} (hv : v.Steady) (hlevels : v.height ≤ levels)
    (name : Option String) (depth : Nat) :
    Echoed (growWithin policy levels v name depth) (growWithin policy levels v.settled name depth) := by
  induction levels generalizing v name depth with
  | zero => exact absurd hlevels (Nat.not_le_of_lt v.height_pos)
  | succ levels ih =>
    refine echoed_node hv (fun c hc hlower name depth => ?_) name depth
    exact ih hc (Nat.le_of_lt_succ (Nat.lt_of_lt_of_le hlower hlevels)) name depth

/-- Deferring makes no difference: unless a stop is requested on the way, a graph with getters that answer every read
alike is written as the same events as the graph with those answers, and the items of the enumerators, in their place. -/
theorem write_settled (policy : Policy) {v : Value} (hv : v.Steady) (name : Option String) (depth : Nat) (w : Walker)
    (hrunning : ¬ (endState (write policy v name depth w)).run.stopped) :
    ∃ (e : Element) (w₁ w₁' : Walker),
      write policy v name depth w = .ok () w₁ ∧ w₁.recorder = w.recorder.append e.events ∧
      write policy v.settled name depth w = .ok () w₁' ∧ w₁'.recorder = w.recorder.append e.events := by
  -- Enough levels for both graphs.
  let levels := max v.height v.settled.height
  have hlevels : v.height ≤ levels := Nat.le_max_left ..
  have hlevels' : v.settled.height ≤ levels := Nat.le_max_right ..
  have hrecords := records_within policy levels v name depth
  have hrecords' := records_within policy levels v.settled name depth
  rw [writeWithin_eq_write policy hlevels] at hrecords
  rw [writeWithin_eq_write policy hlevels'] at hrecords'
  rw [hrecords.run_eq w] at hrunning
  have hechoed := echoed_within policy hv hlevels name depth
  have hstart : ¬ w.run.stopped := fun hstopped => hrunning (hechoed.lasting w hstopped)
  obtain ⟨e, w₁, w₁', hgrow, hgrow', -⟩ := hechoed.echoed w w ⟨hstart, hstart, rfl, rfl⟩ hrunning
  exact ⟨e, _, _, hrecords.of_ok hgrow w.recorder, rfl, hrecords'.of_ok hgrow' w.recorder, rfl⟩

/-- A car with a wheel behind a getter, whose string form is behind another, an owner that cannot be read, and doors
of which the second one is stuck. -/
theorem write_settled_car :
    ∃ (v v' : Value) (e : Element) (w₁ w₁' : Walker),
      v = .object "Car" [⟨"wheel", none, .deferred ⟨1, .ok (.object "Wheel" []
          (some (.deferred ⟨2, .ok "round", [], none⟩))), [], none⟩⟩,
        ⟨"owner", some "Person", .deferred ⟨3, .error "gone", [], none⟩⟩,
        ⟨"doors", none, .ready (.list .list none (.stepped 4 [⟨.ok (.scalar (.nat8 1)), false⟩,
          ⟨.error "stuck", false⟩]) [])⟩] none ∧
      v' = .object "Car" [⟨"wheel", none, .ready (.object "Wheel" [] (some (.ready "round")))⟩,
        ⟨"owner", some "Person", .failed "gone"⟩,
        ⟨"doors", none, .ready (.list .list none (.ready [.scalar (.nat8 1)]) [])⟩] none ∧
      v.Steady ∧ v.settled = v' ∧ ¬ (endState (write {} v none 2 {})).run.stopped ∧
      write {} v none 2 {} = .ok () w₁ ∧ w₁.recorder = ({} : Recorder).append e.events ∧
      write {} v' none 2 {} = .ok () w₁' ∧ w₁'.recorder = ({} : Recorder).append e.events := by
  let wheel : Value := .object "Wheel" [] (some (.deferred ⟨2, .ok "round", [], none⟩))
  let doors : Value := .list .list none (.stepped 4 [⟨.ok (.scalar (.nat8 1)), false⟩, ⟨.error "stuck", false⟩]) []
  let car : Value := .object "Car" [⟨"wheel", none, .deferred ⟨1, .ok wheel, [], none⟩⟩,
    ⟨"owner", some "Person", .deferred ⟨3, .error "gone", [], none⟩⟩, ⟨"doors", none, .ready doors⟩] none
  have hdisplay : (Fetch.deferred (⟨2, .ok "round", [], none⟩ : Getter String)).Steady := Getter.steady_of_once rfl
  have hwheel : wheel.Steady := .intro (by simpa [wheel, Value.PartsSteady] using hdisplay) (by simp [wheel, Value.children])
  have hcount : (Value.scalar (.nat8 1)).Steady := .intro trivial (by simp [Value.children])
  have hdoors : doors.Steady := .intro ⟨(Getter.steady_of_once rfl).sequence, List.forall_mem_nil _⟩
    (by simpa [doors, Value.children, Sequence.stepped, Sequence.results, Enumeration.results, Getter.results,
      Except.toOption] using hcount)
  have hparts : car.PartsSteady := by
    refine ⟨fun p hp => ?_, by simp⟩
    simp only [List.mem_cons, List.not_mem_nil, or_false] at hp
    rcases hp with rfl | rfl | rfl
    · exact Getter.steady_of_once rfl
    · exact Getter.steady_of_once rfl
    · trivial
  have hcar : car.Steady := .intro hparts
    (by simpa [car, Value.children, Fetch.results, Getter.results, Except.toOption] using And.intro hwheel hdoors)
  have hrunning : ¬ (endState (write {} car none 2 {})).run.stopped := by decide +kernel
  obtain ⟨e, w₁, w₁', hwrite⟩ := write_settled {} hcar none 2 {} hrunning
  exact ⟨car, _, e, w₁, w₁', rfl, rfl, hcar, rfl, hrunning, hwrite⟩

end GraphMarkup
