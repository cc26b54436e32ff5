import GraphMarkup.Proofs.Graph.AtHand
import GraphMarkup.Proofs.Walk.Label
import GraphMarkup.Walk.Levels
import Mathlib.Data.List.Forall2

/-!
# Walks to different depths

* `Element.Prunes` : an element that another one becomes when the children of some elements in it are cut off;
* `Gives` : a step that gives one thing from every state in which no stop has been requested;
* `EndsFrom`, `Ends` : two steps that both come to an end, and give things that correspond;
* `endsFrom_same`, `endsFrom_cut` : elements of a value that is written in the same way at both depths, or as its string
  form at the smaller one;
* `write_prunes` : over a graph at hand, the element at a smaller depth prunes that at a larger one.

A value is collapsed only at depth zero, which only properties reach: items have the depth of their container. So what
is cut off stands in a named element, and the name is there at any depth.
-/

namespace GraphMarkup

variable {α β γ δ : Type} {policy : Policy}

/-- An element that another one becomes when the children of some of its elements are cut off. Tag and name stay. What
is not cut off has the same attributes, the same text and as many children, which correspond in order. -/
inductive Element.Prunes (policy : Policy) : Element → Element → Prop
  | cut {e e' : Element} (htag : e.tag = e'.tag)
    (hname : e.attribute? policy.names.nameAttribute = e'.attribute? policy.names.nameAttribute)
    (hchildren : e.children = []) : Element.Prunes policy e e'
  | kept {e e' : Element} (htag : e.tag = e'.tag) (hattributes : e.attributes = e'.attributes)
    (htext : e.text = e'.text) (hchildren : List.Forall₂ (Element.Prunes policy) e.children e'.children) :
    Element.Prunes policy e e'

theorem Element.Prunes.of_children_nil {e : Element} (h : e.children = []) : e.Prunes policy e := .cut rfl rfl h

/-! ## Steps that give the same everywhere -/

/-- A step that gives one thing from every state in which no stop has been requested. It requests none, and leaves the
tag of items alone. -/
def Gives (a : α) (step : WalkM α) : Prop :=
  ∀ w : Walker, ¬ w.run.stopped → ∃ w', step w = .ok a w' ∧ ¬ w'.run.stopped ∧ w'.itemTagDue = w.itemTagDue

theorem gives_pure (a : α) : Gives a (pure a) := fun w hw => ⟨w, rfl, hw, rfl⟩

theorem Gives.bind {a : α} {b : β} {step : WalkM α} {k : α → WalkM β} (h : Gives a step) (hk : Gives b (k a)) :
    Gives b (step >>= k) := by
  intro w hw
  obtain ⟨w₁, hstep, hw₁, hdue⟩ := h w hw
  obtain ⟨w₂, hrest, hw₂, hdue'⟩ := hk w₁ hw₁
  exact ⟨w₂, (bind_of_ok hstep).trans hrest, hw₂, hdue'.trans hdue⟩

theorem Answers.gives {a : α} {step : StateM Run α} (h : Answers a step) : Gives a (WalkM.onRun step) := by
  intro w hw
  obtain ⟨hanswer, hstopped⟩ := h w.run
  refine ⟨{ w with run := (step w.run).2 }, ?_, ?_, rfl⟩
  · rw [← hanswer]
    rfl
  · rwa [hstopped]

theorem gives_note (entry : Entry) : Gives () (WalkM.note entry) := Answers.gives fun _ => ⟨rfl, rfl⟩

theorem gives_poll : Gives () WalkM.poll := fun w hw => ⟨w, WalkM.poll_of_running hw, hw, rfl⟩

theorem gives_refused {enumerator : Getter (Enumeration α)} (h : (Sequence.deferred enumerator).AtHand)
    (body : α → WalkM (List Element)) : Gives [] (gatherItems (.deferred enumerator) body) := by
  intro w hw
  obtain ⟨reason, run', hread, hstopped⟩ := h.refused w.run
  have hstep : WalkM.onRun ((Fetch.deferred enumerator).read .enumerator) w = .ok (.error reason) { w with run := run' } := by
    simp only [WalkM.onRun, hread]
  have hopen : ¬ run'.stopped := by rwa [hstopped]
  obtain ⟨w', hrest, hw'⟩ := (gives_note (.mended (.refusedEnumerator reason))).bind
    (k := fun _ => pure ([] : List Element)) (gives_pure []) { w with run := run' } hopen
  exact ⟨w', (bind_of_ok hstep).trans hrest, hw'⟩

theorem gives_visit : Gives () WalkM.visit := fun _ hw => ⟨_, rfl, hw, rfl⟩

theorem Value.AtHand.gives_stringForm {v : Value} (h : v.AtHand) (policy : Policy) :
    ∃ text, Gives text (stringForm policy v) := by
  obtain ⟨answer, hanswer⟩ := h.answers_stringForm? policy
  cases answer with
  | ok text => exact ⟨text, hanswer.gives.bind (gives_pure text)⟩
  | error reason => exact ⟨none, hanswer.gives.bind ((gives_note _).bind (gives_pure none))⟩

/-! ## Two steps that come to an end -/

/-- A walk inside its first element: no stop has been requested, and the tag of items has been taken. -/
structure Walker.Underway (w : Walker) : Prop where
  running : ¬ w.run.stopped
  tagged : w.itemTagDue = false

/-- Two steps that come to an end from two states, giving things that correspond. -/
def EndsFrom (R : α → β → Prop) (give : WalkM α) (give' : WalkM β) (w w' : Walker) : Prop :=
  ∃ a b w₁ w₁', give w = .ok a w₁ ∧ give' w' = .ok b w₁' ∧ w₁.Underway ∧ w₁'.Underway ∧ R a b

/-- Two steps that come to an end from any two states inside the first element of a walk. -/
abbrev Ends (R : α → β → Prop) (give : WalkM α) (give' : WalkM β) : Prop :=
  ∀ w w' : Walker, w.Underway → w'.Underway → EndsFrom R give give' w w'

theorem ends_pure {R : α → β → Prop} {a : α} {b : β} (h : R a b) : Ends R (pure a) (pure b) :=
  fun w w' hw hw' => ⟨a, b, w, w', rfl, rfl, hw, hw', h⟩

theorem Gives.ends {R : α → β → Prop} {a : α} {b : β} {give : WalkM α} {give' : WalkM β} (h : Gives a give)
    (h' : Gives b give') (hR : R a b) : Ends R give give' := by
  intro w w' hw hw'
  obtain ⟨w₁, hgive, hw₁, hdue⟩ := h w hw.running
  obtain ⟨w₁', hgive', hw₁', hdue'⟩ := h' w' hw'.running
  exact ⟨a, b, w₁, w₁', hgive, hgive', ⟨hw₁, hdue.trans hw.tagged⟩, ⟨hw₁', hdue'.trans hw'.tagged⟩, hR⟩

theorem EndsFrom.bind {R : α → β → Prop} {S : γ → δ → Prop} {give : WalkM α} {give' : WalkM β} {k : α → WalkM γ}
    {k' : β → WalkM δ} {w w' : Walker} (h : EndsFrom R give give' w w') (hk : ∀ a b, R a b → Ends S (k a) (k' b)) :
    EndsFrom S (give >>= k) (give' >>= k') w w' := by
  obtain ⟨a, b, w₁, w₁', hgive, hgive', hw₁, hw₁', hab⟩ := h
  obtain ⟨c, d, w₂, w₂', hrest, hrest', hends⟩ := hk a b hab w₁ w₁' hw₁ hw₁'
  exact ⟨c, d, w₂, w₂', (bind_of_ok hgive).trans hrest, (bind_of_ok hgive').trans hrest', hends⟩

theorem Ends.bind {R : α → β → Prop} {S : γ → δ → Prop} {give : WalkM α} {give' : WalkM β} {k : α → WalkM γ}
    {k' : β → WalkM δ} (h : Ends R give give') (hk : ∀ a b, R a b → Ends S (k a) (k' b)) :
    Ends S (give >>= k) (give' >>= k') :=
  fun w w' hw hw' => (h w w' hw hw').bind hk

/-- A step on both sides that gives the same wherever it starts. -/
theorem Ends.after {R : β → γ → Prop} {a : α} {step : WalkM α} {k : α → WalkM β} {k' : α → WalkM γ} (h : Gives a step)
    (hk : Ends R (k a) (k' a)) : Ends R (step >>= k) (step >>= k') := by
  intro w w' hw hw'
  obtain ⟨w₁, hstep, hw₁, hdue⟩ := h w hw.running
  obtain ⟨w₁', hstep', hw₁', hdue'⟩ := h w' hw'.running
  have hends := hk w₁ w₁' ⟨hw₁, hdue.trans hw.tagged⟩ ⟨hw₁', hdue'.trans hw'.tagged⟩
  unfold EndsFrom at hends ⊢
  rwa [bind_of_ok hstep, bind_of_ok hstep']

/-- Elements of which the first ones prune the others, one by one. -/
abbrev EndsPruned (policy : Policy) : WalkM (List Element) → WalkM (List Element) → Prop :=
  Ends (List.Forall₂ (Element.Prunes policy))

theorem EndsPruned.join {give give' more more' : WalkM (List Element)} (h : EndsPruned policy give give')
    (h' : EndsPruned policy more more') :
    EndsPruned policy (do return (← give) ++ (← more)) (do return (← give') ++ (← more')) :=
  h.bind fun _ _ hes => h'.bind fun _ _ hfs => ends_pure (List.rel_append hes hfs)

theorem EndsPruned.one {give give' : WalkM Element} (h : Ends (Element.Prunes policy) give give') :
    EndsPruned policy (do return [← give]) (do return [← give']) :=
  h.bind fun _ _ he => ends_pure (.cons he .nil)

theorem ends_gather {body body' : α → WalkM (List Element)} {as : List α}
    (h : ∀ a ∈ as, EndsPruned policy (body a) (body' a)) : EndsPruned policy (gather body as) (gather body' as) := by
  induction as with
  | nil => exact ends_pure .nil
  | cons a as ih => exact (h a (List.mem_cons_self ..)).join (ih fun b hb => h b (List.mem_cons_of_mem _ hb))

theorem ends_gatherItems {body body' : α → WalkM (List Element)} {items : Sequence α} (hitems : items.AtHand)
    (h : ∀ a ∈ items.results, EndsPruned policy (body a) (body' a)) :
    EndsPruned policy (gatherItems items body) (gatherItems items body') := by
  cases items with
  | ready items => exact ends_gather h
  | deferred enumerator => exact (gives_refused hitems body).ends (gives_refused hitems body') .nil

/-! ## How an element begins on both sides -/

/-- Two states in which an element of a name, or of none, begins in the same way. Inside the first element of a walk
these are any two states. -/
structure Begins (name : Option String) (w w' : Walker) : Prop where
  running : ¬ w.run.stopped
  running' : ¬ w'.run.stopped
  same : w.itemTagDue = w'.itemTagDue
  named : name ≠ none → w.itemTagDue = false

section Frame

variable {name : Option String} {w w' : Walker}

theorem Walker.Underway.begins (hw : w.Underway) (hw' : w'.Underway) (name : Option String) : Begins name w w' :=
  ⟨hw.running, hw'.running, hw.tagged.trans hw'.tagged.symm, fun _ => hw.tagged⟩

/-- A step in front of an element that gives the same on both sides. -/
theorem EndsFrom.after {R : β → γ → Prop} {a : α} {step : WalkM α} {k : α → WalkM β} {k' : α → WalkM γ}
    (h : Gives a step) (hbegins : Begins name w w')
    (hk : ∀ w₁ w₁', Begins name w₁ w₁' → EndsFrom R (k a) (k' a) w₁ w₁') :
    EndsFrom R (step >>= k) (step >>= k') w w' := by
  obtain ⟨w₁, hstep, hw₁, hdue⟩ := h w hbegins.running
  obtain ⟨w₁', hstep', hw₁', hdue'⟩ := h w' hbegins.running'
  have hends := hk w₁ w₁' ⟨hw₁, hw₁', by rw [hdue, hdue', hbegins.same], fun hname => hdue.trans (hbegins.named hname)⟩
  unfold EndsFrom at hends ⊢
  rwa [bind_of_ok hstep, bind_of_ok hstep']

theorem endsFrom_start (h : Begins name w w') (policy : Policy) (typeName : Option String) :
    EndsFrom (fun start start' => start = start' ∧ start.children = []) (growStart policy name typeName)
      (growStart policy name typeName) w w' := by
  cases name with
  | some name =>
    have htagged := h.named (Option.some_ne_none name)
    exact ⟨_, _, w, w', rfl, rfl, ⟨h.running, htagged⟩, ⟨h.running', h.same ▸ htagged⟩, rfl, rfl⟩
  | none =>
    by_cases hdue : w.itemTagDue
    · have hstart {w : Walker} (hdue : w.itemTagDue) : growStart policy none typeName w =
          .ok { tag := policy.names.object, attributes := typeAttributes policy typeName }
            { w with itemTagDue := false } := by
        rw [growStart, get_bind, if_pos hdue]
        rfl
      exact ⟨_, _, _, _, hstart hdue, hstart (h.same ▸ hdue), ⟨h.running, rfl⟩, ⟨h.running', rfl⟩, rfl, rfl⟩
    · have hstart {w : Walker} (hdue : ¬ w.itemTagDue) : growStart policy none typeName w =
          .ok { tag := policy.names.property, attributes := typeAttributes policy typeName } w := by
        rw [growStart, get_bind, if_neg hdue]
        rfl
      have hdue' : ¬ w'.itemTagDue := h.same ▸ hdue
      exact ⟨_, _, w, w', hstart hdue, hstart hdue', ⟨h.running, Bool.eq_false_iff.2 hdue⟩,
        ⟨h.running', Bool.eq_false_iff.2 hdue'⟩, rfl, rfl⟩

theorem endsFrom_text (h : Begins name w w') (policy : Policy) (typeName : Option String) (text : String) :
    EndsFrom (Element.Prunes policy) (growText policy name typeName text) (growText policy name typeName text) w w' := by
  refine (endsFrom_start h policy typeName).bind fun start start' hstart => ?_
  obtain ⟨rfl, hchildren⟩ := hstart
  exact ends_pure (.of_children_nil hchildren)

theorem endsFrom_around {give give' : WalkM (List Element)} (h : Begins name w w') (typeName : Option String)
    (hgive : EndsPruned policy give give') :
    EndsFrom (Element.Prunes policy) (growAround policy name typeName give) (growAround policy name typeName give')
      w w' := by
  refine (endsFrom_start h policy typeName).bind fun start start' hstart => hgive.bind fun es es' hes => ?_
  obtain ⟨rfl, -⟩ := hstart
  exact ends_pure (.kept rfl rfl rfl hes)

theorem endsFrom_null (h : Begins name w w') (policy : Policy) :
    EndsFrom (Element.Prunes policy) (growNull policy name) (growNull policy name) w w' :=
  endsFrom_around h none (ends_pure .nil)

end Frame

/-! ## Parts of an element -/

/-- Elements of a value at two depths, of which the first prunes the second. Without a name the depths may not be
zero. -/
abbrev PrunesInside (policy : Policy) (inside : InsideElement) (c : Value) : Prop :=
  ∀ name d d', d ≤ d' → (name = none → 1 ≤ d) → ∀ w w', Begins name w w' →
    EndsFrom (Element.Prunes policy) (inside c name d) (inside c name d') w w'

section Parts

variable {inside : InsideElement} {d d' : Nat}

theorem PrunesInside.ends {c : Value} (h : PrunesInside policy inside c) (hd : d ≤ d') (name : Option String)
    (hname : name = none → 1 ≤ d) : Ends (Element.Prunes policy) (inside c name d) (inside c name d') :=
  fun w w' hw hw' => h name d d' hd hname w w' (hw.begins hw' name)

theorem ends_property {p : Property Value} (hp : p.value.AtHand)
    (h : ∀ c ∈ p.value.results, PrunesInside policy inside c) (hd : d ≤ d') :
    Ends (Element.Prunes policy) (growProperty policy inside d p) (growProperty policy inside d' p) := by
  have hempty : Ends (Element.Prunes policy) (pure (emptyProperty policy p)) (pure (emptyProperty policy p)) :=
    ends_pure (.of_children_nil rfl)
  obtain ⟨answer, hanswer, hresult⟩ := hp.answers (.property p.name)
  refine Ends.after gives_poll (Ends.after hanswer.gives ?_)
  cases answer with
  | error reason => exact Ends.after (gives_note _) hempty
  | ok value =>
    by_cases hnull : value.isNull
    · simp only [if_pos hnull]
      exact hempty
    · simp only [if_neg hnull]
      exact (h value (hresult value rfl)).ends hd (some p.name) fun hname => nomatch hname

theorem ends_properties {ps : List (Property Value)} (hps : ∀ p ∈ ps, p.value.AtHand ∧
      ∀ c ∈ p.value.results, PrunesInside policy inside c) (hd : d ≤ d') :
    EndsPruned policy (growProperties policy inside d ps) (growProperties policy inside d' ps) := by
  refine ends_gather fun p hp => ?_
  obtain ⟨hhand, hinside⟩ := hps p hp
  exact EndsPruned.one (ends_property hhand hinside (Nat.sub_le_sub_right hd 1))

theorem Policy.depthFor_le (policy : Policy) (value : Value) (hd : d ≤ d') :
    policy.depthFor value d ≤ policy.depthFor value d' := by
  unfold Policy.depthFor
  split
  · split
    · exact Nat.le_refl _
    · exact hd
  · exact hd

variable {v : Value}

theorem ends_selection (hv : v.AtHand) (h : ∀ c ∈ v.children, PrunesInside policy inside c) (hd : d ≤ d') :
    EndsPruned policy (growSelection policy inside v d) (growSelection policy inside v d') := by
  refine ends_properties (fun p hp => ?_) (policy.depthFor_le v hd)
  obtain ⟨hhand, hresults⟩ := hv.property (Policy.mem_properties_of_mem_selection hp)
  exact ⟨hhand, fun c hc => h c (hresults c hc)⟩

/-- What a container holds has the depth of the container, which is not zero. -/
theorem ends_items {shape : Shape} (hv : v.AtHand) (hshape : v.shape? = some shape)
    (h : ∀ c ∈ v.children, PrunesInside policy inside c) (hd : d ≤ d') (hpos : 1 ≤ d) :
    EndsPruned policy (growItems policy inside d shape) (growItems policy inside d' shape) := by
  have hparts := hv.parts
  cases v with
  | list kind typeName elements properties =>
    obtain rfl := Option.some.inj hshape
    refine ends_gatherItems hparts.1 fun item hitem => ?_
    exact EndsPruned.one ((h item (List.mem_append_left _ hitem)).ends hd none fun _ => hpos)
  | dict typeName entries =>
    obtain rfl := Option.some.inj hshape
    refine ends_gatherItems hparts fun entry hentry => ?_
    have hmem : ∀ c ∈ [entry.1, entry.2], PrunesInside policy inside c :=
      fun c hc => h c (List.mem_flatMap.2 ⟨entry, hentry, hc⟩)
    have hkey := (hmem entry.1 (by simp)).ends hd (some policy.names.key) fun _ => hpos
    have hvalue := (hmem entry.2 (by simp)).ends hd (some policy.names.value) fun _ => hpos
    exact hkey.bind fun _ _ hkey => hvalue.bind fun _ _ hvalue => ends_pure (.cons hkey (.cons hvalue .nil))
  | null | scalar | enum | object | decorated => cases hshape

/-! ## The ways to write a value -/

variable {name : Option String} {w w' : Walker}

/-- A value that is written in the same way at both depths. -/
theorem endsFrom_same (hv : v.AtHand) (h : ∀ c ∈ v.children, PrunesInside policy inside c) (hd : d ≤ d')
    (hclass : classify policy v d = classify policy v d') (hbegins : Begins name w w') :
    EndsFrom (Element.Prunes policy) (growNode policy inside v name d) (growNode policy inside v name d') w w' := by
  refine EndsFrom.after gives_poll hbegins fun w w' hbegins => EndsFrom.after gives_visit hbegins fun w w' hbegins => ?_
  rw [← hclass]
  cases hstrategy : classify policy v d with
  | null => exact endsFrom_null hbegins policy
  | scalar scalar => exact endsFrom_text hbegins policy _ _
  | notedScalar notes scalar =>
    obtain ⟨deserialized, rfl⟩ := eq_of_classify_eq_notedScalar hstrategy
    exact hv.parts.elim
  | container shape decoration =>
    cases Strategy.suits_of_classify hstrategy with
    | container hdepth hshape =>
      have hpos : 1 ≤ d := Nat.one_le_iff_ne_zero.2 hdepth
      refine endsFrom_around hbegins _ ?_
      unfold growContents
      split
      · exact (ends_items hv hshape h hd hpos).join (ends_selection hv h hd)
      · exact (ends_items hv hshape h hd hpos).join (ends_properties (List.forall_mem_nil _) hd)
    | decorated => exact hv.parts.elim
  | enumLike _ underlying => exact endsFrom_text hbegins policy _ _
  | asString =>
    have hempty : v.notes.isEmpty := by rw [hv.notes_eq, List.isEmpty_nil]
    obtain ⟨text, htext⟩ := hv.gives_stringForm policy
    simp only [growString, if_pos hempty]
    refine EndsFrom.after htext hbegins fun w w' hbegins => ?_
    cases text with
    | some text => exact endsFrom_text hbegins policy _ text
    | none => exact endsFrom_null hbegins policy
  | complex =>
    have hparts (depth : Nat) : growParts policy inside v depth = growSelection policy inside v depth := by
      have hplain := hv.parts
      cases v with
      | decorated => exact hplain.elim
      | null | scalar | enum | list | dict | object => rfl
    refine endsFrom_around hbegins _ ?_
    rw [hparts, hparts]
    exact ends_selection hv h hd

theorem yields_children_nil_of_collapsed (hv : v.AtHand) (hclass : classify policy v d = .asString) :
    Yields (fun e : Element => e.children = []) (growNode policy inside v name d) := by
  have hempty : v.notes.isEmpty := by rw [hv.notes_eq, List.isEmpty_nil]
  refine yields_poll.after fun _ => yields_visit.after fun _ => ?_
  simp only [hclass, growString, if_pos hempty]
  refine (closedSteps_yields.stringForm policy v).after fun text => ?_
  cases text with
  | some text => exact yields_text_childless policy name _ text
  | none => exact yields_null_childless policy name

/-- A value that is collapsed at the smaller depth, where it is named. -/
theorem endsFrom_cut (hinside : ∀ v name depth, Yields (Element.Labelled policy name) (inside v name depth)) (hv : v.AtHand)
    (h : ∀ c ∈ v.children, PrunesInside policy inside c) (hclass : classify policy v d = .asString) {name : String}
    (hbegins : Begins (some name) w w') :
    EndsFrom (Element.Prunes policy) (growNode policy inside v (some name) d) (growNode policy inside v (some name) d')
      w w' := by
  have hself : Begins (some name) w w := ⟨hbegins.running, hbegins.running, rfl, hbegins.named⟩
  have hself' : Begins (some name) w' w' :=
    ⟨hbegins.running', hbegins.running', rfl, fun hname => hbegins.same ▸ hbegins.named hname⟩
  obtain ⟨e, -, w₁, -, hgrow, -, hw₁, -⟩ := endsFrom_same hv h (Nat.le_refl d) rfl hself
  obtain ⟨e', -, w₁', -, hgrow', -, hw₁', -⟩ := endsFrom_same hv h (Nat.le_refl d') rfl hself'
  have hlabel := ((closed_labelled policy).node hinside v (some name) d).of_ok hgrow
  have hlabel' := ((closed_labelled policy).node hinside v (some name) d').of_ok hgrow'
  refine ⟨e, e', w₁, w₁', hgrow, hgrow', hw₁, hw₁', .cut ?_ ?_ ?_⟩
  · rw [hlabel.tag_eq, hlabel'.tag_eq]
  · rw [hlabel.attribute?_eq, hlabel'.attribute?_eq]
  · exact (yields_children_nil_of_collapsed hv hclass).of_ok hgrow

/-- The element of a value at a smaller depth prunes that at a larger one if that is so for the values inside it. -/
theorem prunes_node (hinside : ∀ v name depth, Yields (Element.Labelled policy name) (inside v name depth)) (hv : v.AtHand)
    (h : ∀ c ∈ v.children, PrunesInside policy inside c) : PrunesInside policy (growNode policy inside) v := by
  intro name d d' hd hname w w' hbegins
  by_cases hpos : 1 ≤ d
  · exact endsFrom_same hv h hd (classify_eq_of_pos policy v hpos (Nat.le_trans hpos hd)) hbegins
  · obtain rfl : d = 0 := by omega
    cases name with
    | none => exact absurd (hname rfl) hpos
    | some name =>
      cases hleaf : Strategy.leaf? policy.knownTypes v with
      | none => exact endsFrom_cut hinside hv h (by rw [classify_zero, hleaf]; rfl) hbegins
      | some strategy =>
        refine endsFrom_same hv h hd ?_ hbegins
        simp only [classify, hleaf]

end Parts

/-! ## Whole values -/

theorem prunes_within (policy : Policy) {levels : Nat} {v : Value} (hv : v.AtHand) (hlevels : v.height ≤ levels) :
    PrunesInside policy (growWithin policy levels) v := by
  induction levels generalizing v with
  | zero => exact absurd v.height_pos (Nat.not_lt.2 hlevels)
  | succ levels ih =>
    refine prunes_node ((closed_labelled policy).within levels) hv fun c hc => ih (hv.inside hc) ?_
    exact Nat.le_of_lt_succ (Nat.lt_of_lt_of_le (Value.height_lt_of_mem_children hc) hlevels)

/-- A smaller depth only prunes the element of an item: over a graph at hand, without decorators, and under any hints,
the item is written at both depths, and the element at the smaller one comes from that at the larger one by cutting off
the children of some elements in it. -/
theorem write_prunes (policy : Policy) {v : Value} (hv : v.AtHand) {d d' : Nat} (hpos : 1 ≤ d) (hd : d ≤ d')
    {w : Walker} (hw : ¬ w.run.stopped) :
    ∃ (e e' : Element) (w₁ w₁' : Walker), write policy v none d w = .ok () w₁ ∧ w₁.recorder = w.recorder.append e.events ∧
      write policy v none d' w = .ok () w₁' ∧ w₁'.recorder = w.recorder.append e'.events ∧ e.Prunes policy e' := by
  have hbegins : Begins none w w := ⟨hw, hw, rfl, fun hname => absurd rfl hname⟩
  obtain ⟨e, e', w₁, w₁', hgrow, hgrow', -, -, hprunes⟩ :=
    prunes_within policy hv (Nat.le_refl v.height) none d d' hd (fun _ => hpos) w w hbegins
  have hwrite := (write_records_grow policy v none d).of_ok hgrow w.recorder
  have hwrite' := (write_records_grow policy v none d').of_ok hgrow' w.recorder
  exact ⟨e, e', _, _, hwrite, rfl, hwrite', rfl, hprunes⟩

/-- A car at depths one and two, with a hint for the depth of its wheel: at depth one the wheel and the colour are
collapsed. -/
theorem write_prunes_car :
    (Value.object "Car" [⟨"wheel", none, .ready (.object "Wheel" [⟨"size", none, .failed "flat"⟩] none)⟩,
        ⟨"colour", none, .ready (.enum "Colour" "Red" (.nat8 1))⟩] (some (.failed "no plate"))).AtHand ∧
      ∃ (e e' : Element) (w₁ w₁' : Walker),
        write (({} : Policy).withHints "Wheel" { depth := some 3 }) (.object "Car"
            [⟨"wheel", none, .ready (.object "Wheel" [⟨"size", none, .failed "flat"⟩] none)⟩,
              ⟨"colour", none, .ready (.enum "Colour" "Red" (.nat8 1))⟩] (some (.failed "no plate"))) none 1 {} =
          .ok () w₁ ∧ w₁.recorder = ({} : Recorder).append e.events ∧
        write (({} : Policy).withHints "Wheel" { depth := some 3 }) (.object "Car"
            [⟨"wheel", none, .ready (.object "Wheel" [⟨"size", none, .failed "flat"⟩] none)⟩,
              ⟨"colour", none, .ready (.enum "Colour" "Red" (.nat8 1))⟩] (some (.failed "no plate"))) none 2 {} =
          .ok () w₁' ∧ w₁'.recorder = ({} : Recorder).append e'.events ∧
        e.Prunes (({} : Policy).withHints "Wheel" { depth := some 3 }) e' := by
  have hwheel : (Value.object "Wheel" [⟨"size", none, .failed "flat"⟩] none).AtHand :=
    .intro ⟨by simp [Fetch.AtHand], by simp⟩ (by simp [Value.children, Fetch.results])
  have hcolour : (Value.enum "Colour" "Red" (.nat8 1)).AtHand := .intro trivial (by simp [Value.children])
  have hcar : (Value.object "Car" [⟨"wheel", none, .ready (.object "Wheel" [⟨"size", none, .failed "flat"⟩] none)⟩,
      ⟨"colour", none, .ready (.enum "Colour" "Red" (.nat8 1))⟩] (some (.failed "no plate"))).AtHand :=
    .intro ⟨by simp [Fetch.AtHand], by simp [Fetch.AtHand]⟩
      (by simpa [Value.children, Fetch.results] using And.intro hwheel hcolour)
  exact ⟨hcar, write_prunes _ hcar (Nat.le_refl 1) (Nat.le_succ 1) Bool.false_ne_true⟩

end GraphMarkup
