import GraphMarkup.Proofs.Walk.Charting

/-!
# The depth bound

* `Value.Undecorated` : a graph without decorators;
* `Chart.Reaches` : the nodes of a chart, with the number of steps to a property on the way to them;
* `Entry.asksPart`, `Run.SparesParts` : a run in which no property is read and no enumerator created;
* `write_depth_bound` : under hints that set no depth and no string source, no element of an undecorated graph is more
  steps to a property away from the root than the depth says, and with all of them taken nothing inside is looked at.

Every step to a property takes one off the depth that is left, and no other step adds to it.
-/

namespace GraphMarkup

variable {α β : Type} {policy : Policy} {v : Value} {depth : Nat}

/-! ## Graphs without decorators -/

/-- A value that is no decorator, as is everything inside it for every answer of its parts. -/
inductive Value.Undecorated : Value → Prop
  | intro {v : Value} (here : ∀ inner notes deserialized, v ≠ .decorated inner notes deserialized)
    (inside : ∀ c ∈ v.children, c.Undecorated) : Undecorated v

namespace Value.Undecorated

theorem ne_decorated (h : v.Undecorated) (inner : Value) (notes : List (Property Value)) (deserialized : Bool) :
    v ≠ .decorated inner notes deserialized := by
  cases h with
  | intro here _ => exact here inner notes deserialized

theorem inside (h : v.Undecorated) {c : Value} (hc : c ∈ v.children) : c.Undecorated := by
  cases h with
  | intro _ inside => exact inside c hc

theorem base_and_notes (h : v.Undecorated) : v.base = v ∧ v.notes = [] := by
  cases v with
  | decorated inner notes deserialized => exact absurd rfl (h.ne_decorated inner notes deserialized)
  | null | scalar | enum | list | dict | object => exact ⟨rfl, rfl⟩

theorem hereditary : Value.Hereditary Value.Undecorated := fun _ h _ hc => h.inside hc

end Value.Undecorated

/-! ## Looking at parts -/

/-- Whether a property is read, or an enumerator created or asked for a step. -/
def Entry.asksPart : Entry → Bool
  | asked (.property _) .. | asked (.source _) .. | asked .enumerator .. | asked (.step _) .. => true
  | _ => false

/-- A run that has gone on without reading a property or creating an enumerator. -/
def Run.SparesParts (run run' : Run) : Prop :=
  ∃ entries : List Entry, run'.journal.toList = run.journal.toList ++ entries ∧ ∀ entry ∈ entries, entry.asksPart = false

/-- A step that reads no property and creates no enumerator. -/
def SparesParts (step : WalkM α) : Prop := ∀ w : Walker, w.run.SparesParts (endState (step w)).run

namespace Run.SparesParts

variable {run run' run'' : Run}

theorem refl (run : Run) : run.SparesParts run := ⟨[], (List.append_nil _).symm, List.forall_mem_nil _⟩

theorem trans (h : run.SparesParts run') (h' : run'.SparesParts run'') : run.SparesParts run'' := by
  obtain ⟨entries, hjournal, hentries⟩ := h
  obtain ⟨later, hjournal', hlater⟩ := h'
  refine ⟨entries ++ later, ?_, List.forall_mem_append.2 ⟨hentries, hlater⟩⟩
  rw [hjournal', hjournal, List.append_assoc]

theorem note (entry : Entry) (h : entry.asksPart = false) (run : Run) : run.SparesParts (run.note entry) :=
  ⟨[entry], by simp [Run.note], List.forall_mem_singleton.2 h⟩

theorem stopIf (stops : Bool) (run : Run) : run.SparesParts (run.stopIf stops) := by
  cases stops with
  | false => exact refl run
  | true => exact note _ rfl { run with stopped := true }

/-- Asking for a string form is no look at a part. -/
theorem display (typeName : String) (text : Fetch String) (run : Run) :
    run.SparesParts (text.read (.display typeName) run).2 := by
  cases text with
  | ready text => exact note _ rfl run
  | failed reason => exact note _ rfl run
  | deferred getter => exact (note _ rfl (run.countRead getter.id)).trans (stopIf _ _)

end Run.SparesParts

theorem SparesParts.bind {step : WalkM α} {k : α → WalkM β} (h : SparesParts step) (hk : ∀ a, SparesParts (k a)) :
    SparesParts (step >>= k) := by
  intro w
  have hstep := h w
  cases hresult : step w with
  | ok a w' =>
    rw [hresult] at hstep
    rw [bind_of_ok hresult]
    exact hstep.trans (hk a w')
  | error e w' =>
    rw [hresult] at hstep
    rwa [bind_of_error hresult]

theorem Still.sparesParts {step : WalkM α} (h : Still step) : SparesParts step := by
  intro w
  rw [h.run w]
  exact Run.SparesParts.refl w.run

theorem sparesParts_note (entry : Entry) (h : entry.asksPart = false) : SparesParts (WalkM.note entry) :=
  fun w => Run.SparesParts.note entry h w.run

theorem sparesParts_poll : SparesParts WalkM.poll := by
  intro w
  by_cases hstopped : w.run.stopped
  · rw [WalkM.poll_of_stopped hstopped]
    exact Run.SparesParts.note _ rfl w.run
  · rw [WalkM.poll_of_running hstopped]
    exact Run.SparesParts.refl w.run

theorem sparesParts_visit : SparesParts WalkM.visit := fun w => Run.SparesParts.note _ rfl w.run

theorem sparesParts_displayText (policy : Policy) (value : Value) :
    SparesParts (WalkM.onRun (displayText policy value)) := by
  intro w
  cases hbase : value.base with
  | object typeName properties display =>
    simp only [displayText, hbase]
    cases display with
    | none => exact Run.SparesParts.refl w.run
    | some text => exact Run.SparesParts.display typeName text w.run
  | null | scalar | enum | list | dict | decorated =>
    simp only [displayText, hbase]
    exact Run.SparesParts.refl w.run

theorem sparesParts_stringForm (h : policy.Unsourced) (value : Value) : SparesParts (stringForm policy value) := by
  rw [stringForm, h.stringForm?_eq value]
  refine (sparesParts_displayText policy value).bind fun text => ?_
  cases text with
  | ok text => exact (Still.pure text).sparesParts
  | error reason => exact (sparesParts_note _ rfl).bind fun _ => (Still.pure none).sparesParts

/-- The ways to write an undecorated value with no depth left. -/
theorem classify_zero_of_undecorated (policy : Policy) (hv : v.Undecorated) :
    classify policy v 0 = .null ∨ (∃ scalar, classify policy v 0 = .scalar scalar) ∨ classify policy v 0 = .asString := by
  rw [classify_zero]
  cases v with
  | null => exact .inl rfl
  | scalar scalar =>
    by_cases hknown : policy.knownTypes.knows scalar
    · exact .inr (.inl ⟨scalar, by rw [Strategy.leaf?, if_pos hknown]; rfl⟩)
    · exact .inr (.inr (by rw [Strategy.leaf?, if_neg hknown]; rfl))
  | decorated inner notes deserialized => exact absurd rfl (hv.ne_decorated inner notes deserialized)
  | enum | list | dict | object => exact .inr (.inr rfl)

/-- Writing an undecorated value with no depth left looks at no part of it. -/
theorem sparesParts_write_zero (h : policy.Unsourced) (hv : v.Undecorated) (name : Option String) :
    SparesParts (write policy v name 0) := by
  rw [write_eq_writeNode]
  refine sparesParts_poll.bind fun _ => sparesParts_visit.bind fun _ => ?_
  rcases classify_zero_of_undecorated policy hv with hclass | ⟨scalar, hclass⟩ | hclass
  · rw [hclass]
    exact (still_writeNull policy name).sparesParts
  · rw [hclass]
    exact (still_writeScalar policy name scalar).sparesParts
  · rw [hclass]
    simp only [writeAsString, hv.base_and_notes.2, List.isEmpty_nil, if_true]
    refine (sparesParts_stringForm h v).bind fun text => Still.sparesParts ?_
    cases text with
    | some text => exact (still_put _).around policy name _
    | none => exact still_writeNull policy name

/-! ## Steps inside a chart -/

/-- A policy under which no type has a depth of its own. -/
def Policy.Undeepened (policy : Policy) : Prop :=
  ∀ typeName hints, policy.typeHints? typeName = some hints → hints.depth = none

theorem Policy.Undeepened.depthFor_eq (h : policy.Undeepened) (value : Value) (depth : Nat) :
    policy.depthFor value depth = depth := by
  unfold Policy.depthFor Policy.hintsFor?
  cases htype : value.typeName? policy.knownTypes with
  | none => rfl
  | some typeName =>
    rw [Option.bind_some]
    cases hhints : policy.typeHints? typeName with
    | none => rfl
    | some hints => rw [Option.bind_some, h typeName hints hhints]

namespace Chart

/-- A node that is inside a chart, or the chart itself, with the number of steps to a property on the way. -/
inductive Reaches : Chart → Nat → Chart → Prop
  | here (c : Chart) : Reaches c 0 c
  | front {c c' node : Chart} {n : Nat} (h : c' ∈ c.front) (hnode : Reaches c' n node) : Reaches c n node
  | property {c c' node : Chart} {n : Nat} (h : c' ∈ c.properties) (hnode : Reaches c' n node) :
    Reaches c (n + 1) node

/-- A chart that stands for an undecorated value with a depth left, unless it stands for no value at all. -/
abbrev StandsAt (depth : Nat) : Chart → Prop := OfValue fun v left => v.Undecorated ∧ left = depth

variable {c c' node : Chart} {due : Bool} {front properties : List Chart}

/-- With no depth left nothing stands inside an undecorated value. -/
theorem Expands.nil_of_zero {reads : Nat → Nat} (hv : v.Undecorated)
    (h : Expands policy v 0 due reads front properties) :
    front = [] ∧ properties = [] := by
  unfold Expands at h
  rcases classify_zero_of_undecorated policy hv with hclass | ⟨scalar, hclass⟩ | hclass
  · rwa [hclass] at h
  · rwa [hclass] at h
  · rw [hclass] at h
    simpa only [hv.base_and_notes.2, List.isEmpty_nil, if_true] using h

/-- What one step further into a chart stands for. -/
theorem StandsAt.inside (hpolicy : policy.Undeepened) (hsound : c.Sound policy) (h : c.StandsAt depth) :
    (∀ c' ∈ c.front, c'.StandsAt depth) ∧ ∀ c' ∈ c.properties, depth ≠ 0 ∧ c'.StandsAt (depth - 1) := by
  have hfits := hsound.here.subject
  cases hsubject : c.subject with
  | absence | leaf =>
    rw [hsubject] at hfits
    obtain ⟨hfront, hproperties⟩ := List.append_eq_nil_iff.1 hfits
    rw [hfront, hproperties]
    exact ⟨List.forall_mem_nil _, List.forall_mem_nil _⟩
  | value v left =>
    rw [hsubject] at hfits
    obtain ⟨hv, rfl⟩ := h v left hsubject
    obtain ⟨hfront, hproperties⟩ := hfits.2.holds Value.Undecorated.hereditary hv
    refine ⟨hfront, fun c' hc' => ⟨?_, fun a left' hvalue => ?_⟩⟩
    · rintro rfl
      rw [(hfits.2.nil_of_zero hv).2] at hc'
      cases hc'
    · obtain ⟨ha, hleft⟩ := hproperties c' hc' a left' hvalue
      rw [hpolicy.depthFor_eq, or_self] at hleft
      exact ⟨ha, hleft⟩

/-- A node is at most as many steps to a property away as there is depth, and has what they leave of it. -/
theorem Reaches.standsAt (hpolicy : policy.Undeepened) {n : Nat} (hreaches : c.Reaches n node)
    (hsound : c.Sound policy) (h : c.StandsAt depth) :
    n ≤ depth ∧ node.StandsAt (depth - n) ∧ node.Sound policy := by
  induction hreaches generalizing depth with
  | here c => exact ⟨Nat.zero_le depth, h, hsound⟩
  | front hc' _ ih =>
    exact ih (hsound.within (List.mem_append_left _ hc')) ((h.inside hpolicy hsound).1 _ hc')
  | property hc' _ ih =>
    obtain ⟨hdepth, hstands⟩ := (h.inside hpolicy hsound).2 _ hc'
    obtain ⟨hn, hnode⟩ := ih (hsound.within (List.mem_append_right _ hc')) hstands
    rw [Nat.sub_sub, Nat.add_comm 1] at hnode
    exact ⟨by omega, hnode⟩

/-- An element with no depth left has no children, and nothing inside its value is looked at. -/
theorem StandsAt.spares (hsources : policy.Unsourced) (hsound : c.Sound policy) (h : c.StandsAt 0) :
    c.element.children = [] ∧ ∀ v left, c.subject = .value v left → c.before.run.SparesParts c.after.run := by
  have hfits := hsound.here
  have hsubject := hfits.subject
  have hchildren (hinside : c.inside = []) : c.element.children = [] := by
    rw [hfits.children, hinside]
    rfl
  cases hcase : c.subject with
  | absence | leaf =>
    rw [hcase] at hsubject
    exact ⟨hchildren hsubject, fun _ _ hvalue => nomatch hvalue⟩
  | value v left =>
    rw [hcase] at hsubject
    obtain ⟨hv, rfl⟩ := h v left hcase
    obtain ⟨hwrite, hexpands⟩ := hsubject
    obtain ⟨hfront, hproperties⟩ := hexpands.nil_of_zero hv
    refine ⟨hchildren (List.append_eq_nil_iff.2 ⟨hfront, hproperties⟩), fun _ _ _ => ?_⟩
    have hspares := sparesParts_write_zero hsources hv c.name (c.before.on {})
    rwa [hwrite] at hspares

end Chart

/-- The depth bound: under hints that set no depth and no string source, an undecorated graph is written at any depth as
an element all of whose nodes are reached by at most as many steps to a property. A node that takes all of them has no
children; none of its properties is read, and no enumerator is created for it. -/
theorem write_depth_bound (hdepths : policy.Undeepened) (hsources : policy.Unsourced) (hv : v.Undecorated)
    (name : Option String) (depth : Nat) (w : Walker) :
    (∃ c : Chart, c.Sound policy ∧ c.Shows v name depth ∧ c.before = w ∧
      write policy v name depth w = .ok () (c.after.on (w.recorder.append c.element.events)) ∧
      ∀ n node, c.Reaches n node → n ≤ depth ∧ (n = depth → node.element.children = [] ∧
        ∀ inner left, node.subject = .value inner left → node.before.run.SparesParts node.after.run)) ∨
    ∃ w', write policy v name depth w = .error .cancelled w' ∧ w'.run.stopped := by
  refine (write_charted policy v name depth w).imp (fun ⟨c, hsound, hshows, hbefore, hwrite⟩ => ?_) id
  refine ⟨c, hsound, hshows, hbefore, hwrite, fun n node hreaches => ?_⟩
  obtain ⟨hn, hnode, hsound'⟩ := hreaches.standsAt hdepths hsound (hshows.ofValue ⟨hv, rfl⟩)
  refine ⟨hn, fun hall => ?_⟩
  rw [hall, Nat.sub_self] at hnode
  exact hnode.spares hsources hsound'

/-- An enumerated car at depth one: its wheel is read by a getter and collapsed, so that the size stays unread. -/
theorem write_depth_bound_wheel :
    (({} : Policy).withHints "Car" { method := .properties ["wheel"] }).Undeepened ∧
      (({} : Policy).withHints "Car" { method := .properties ["wheel"] }).Unsourced ∧
      ∃ (v : Value) (c : Chart),
        v = .list .enumerable none (.stepped 1 [⟨.ok (.object "Car" [⟨"wheel", none, .deferred
          ⟨2, .ok (.object "Wheel" [⟨"size", none, .deferred ⟨3, .error "flat", [], none⟩⟩] none), [], none⟩⟩] none),
          false⟩]) [] ∧
        v.Undecorated ∧ c.Sound (({} : Policy).withHints "Car" { method := .properties ["wheel"] }) ∧
        c.Shows v none 1 ∧
        write (({} : Policy).withHints "Car" { method := .properties ["wheel"] }) v none 1 {} =
          .ok () (c.after.on (({} : Recorder).append c.element.events)) ∧
        ∀ n node, c.Reaches n node → n ≤ 1 ∧ (n = 1 → node.element.children = [] ∧
          ∀ inner left, node.subject = .value inner left → node.before.run.SparesParts node.after.run) := by
  have hhints (typeName : String) (hints : TypeHints)
      (h : (({} : Policy).withHints "Car" { method := .properties ["wheel"] }).typeHints? typeName = some hints) :
      hints = { method := .properties ["wheel"] } := by
    by_cases hcar : typeName = "Car"
    · rw [hcar, Policy.typeHints?_withHints_self] at h
      exact (Option.some.inj h).symm
    · rw [Policy.typeHints?_withHints_of_ne _ _ hcar] at h
      cases h
  have hdepths : (({} : Policy).withHints "Car" { method := .properties ["wheel"] }).Undeepened :=
    fun typeName hints h => by rw [hhints typeName hints h]
  have hsources : (({} : Policy).withHints "Car" { method := .properties ["wheel"] }).Unsourced :=
    fun typeName hints h => by rw [hhints typeName hints h]
  have hwheel : (Value.object "Wheel" [⟨"size", none, .deferred ⟨3, .error "flat", [], none⟩⟩] none).Undecorated :=
    .intro (by simp) (by simp [Value.children, Fetch.results, Getter.results, Except.toOption])
  have hcar : (Value.object "Car" [⟨"wheel", none, .deferred
      ⟨2, .ok (.object "Wheel" [⟨"size", none, .deferred ⟨3, .error "flat", [], none⟩⟩] none), [], none⟩⟩]
      none).Undecorated :=
    .intro (by simp) (by simpa [Value.children, Fetch.results, Getter.results, Except.toOption] using hwheel)
  have hlist : (Value.list .enumerable none (.stepped 1 [⟨.ok (.object "Car" [⟨"wheel", none, .deferred
      ⟨2, .ok (.object "Wheel" [⟨"size", none, .deferred ⟨3, .error "flat", [], none⟩⟩] none), [], none⟩⟩] none),
      false⟩]) []).Undecorated :=
    .intro (by simp) (by simpa [Value.children, Sequence.stepped, Sequence.results, Enumeration.results, Getter.results,
      Except.toOption] using hcar)
  have hruns : ((write (({} : Policy).withHints "Car" { method := .properties ["wheel"] })
      (.list .enumerable none (.stepped 1 [⟨.ok (.object "Car" [⟨"wheel", none, .deferred
        ⟨2, .ok (.object "Wheel" [⟨"size", none, .deferred ⟨3, .error "flat", [], none⟩⟩] none), [], none⟩⟩] none),
        false⟩]) []) none 1).run' {}).isSome := by
    decide +kernel
  obtain ⟨⟨⟩, w', hwrite⟩ := exists_ok_of_run' hruns
  rcases write_depth_bound hdepths hsources hlist none 1 {} with ⟨c, hsound, hshows, -, hwritten, hbound⟩ | ⟨_, hw, -⟩
  · exact ⟨hdepths, hsources, _, c, rfl, hlist, hsound, hshows, hwritten, hbound⟩
  · cases hwrite.symm.trans hw

end GraphMarkup
