import GraphMarkup.Proofs.Markup.Trees
import GraphMarkup.Proofs.Session.Failure
import GraphMarkup.Proofs.Walk.Journaling

/-!
# What the root of a document holds

* `Walks` : the walks over values, one after another, and the elements that they give;
* `items_of_item` : what an item adds to a session, items in a row do;
* `Session.Contains` : a session whose root holds elements, or is still to be opened;
* `Contains.opened` : it makes no difference whether the root has been opened yet;
* `Contains.item`, `Contains.items` : the element of an item is added to the root, up to the first forbidden character;
* `Contains.finished` : the end of the session makes a document of the root;
* `toXml_of_walks` : so the outcome is known from the elements alone.

A session adds entries of its own to the journal between one walk and the next, which no walk looks at.
-/

namespace GraphMarkup

open Element (eventsOf)

variable {policy : Policy} {values : List Value} {value : Value} {es : List Element} {e : Element} {run run' : Run}
  {w : Walker}

/-! ## Walks over values -/

/-- The walks over values, one after another from one run to another, give their elements. -/
inductive Walks (policy : Policy) : Run → List Value → List Element → Run → Prop
  | nil (run : Run) : Walks policy run [] [] run
  | cons {run run' : Run} {value : Value} {values : List Value} {e : Element} {es : List Element} {w : Walker}
    (hgrow : grow policy value none policy.depth { run } = .ok e w) (hwalks : Walks policy w.run values es run') :
    Walks policy run (value :: values) (e :: es) run'

namespace Session

section

variable {s : Session (XmlWriter String)}

/-- The walk over an item goes as in a run that is given but for its journal. -/
theorem grow_eq_of_journaled (hpolicy : s.policy = policy) (hjournaled : ∃ journal, s.run = run.journaled journal)
    (value : Value) :
    ∃ journal, grow s.policy value none s.policy.depth { run := s.run } =
      mapState (·.journaled journal) (grow policy value none policy.depth { run }) := by
  obtain ⟨journal, hjournal⟩ := hjournaled
  rw [hpolicy, hjournal]
  exact grow_ignoresJournal policy value none policy.depth { run } journal

/-- If every item adds its element to those that a session holds, or fails at the first character that XML cannot carry,
then so do items in a row. -/
theorem items_of_item {Holds : List Element → Run → Session (XmlWriter String) → Prop}
    (hitem : ∀ {es run s value e w}, Holds es run s → grow policy value none policy.depth { run } = .ok e w →
      (firstForbidden? e.events = none ∧ ∃ s', serialize value s = .ok () s' ∧ Holds (es ++ [e]) w.run s') ∨
        ∃ c s', firstForbidden? e.events = some c ∧ serialize value s = .error (.writer (.forbiddenChar c)) s')
    {es' : List Element} (h : Holds es run s) (hwalks : Walks policy run values es' run') :
    (firstForbidden? (eventsOf es') = none ∧
        ∃ s', values.forM serialize s = .ok () s' ∧ Holds (es ++ es') run' s') ∨
      ∃ c s', firstForbidden? (eventsOf es') = some c ∧
        values.forM serialize s = .error (.writer (.forbiddenChar c)) s' := by
  induction hwalks generalizing s es with
  | nil run =>
    rw [List.append_nil]
    exact .inl ⟨rfl, s, rfl, h⟩
  | @cons run run' value values e es' w hgrow _ ih =>
    rw [eventsOf, firstForbidden?_append]
    rcases hitem h hgrow with ⟨hnone, s₁, hserialize, h₁⟩ | ⟨c, s₁, hsome, hserialize⟩
    · have hrest : (value :: values).forM serialize s = values.forM serialize s₁ := bind_of_ok hserialize
      rw [hrest, hnone, Option.none_or, List.append_cons]
      exact ih h₁
    · have hfailed : (value :: values).forM serialize s = .error (.writer (.forbiddenChar c)) s₁ :=
        bind_of_error hserialize
      rw [hfailed, hsome]
      exact .inr ⟨c, s₁, rfl, rfl⟩

end

/-! ## The root of a document -/

/-- A session in the layout of a document whose root holds elements, or is still to be opened and holds none, over a run
that is given but for its journal. -/
structure Contains (policy : Policy) (es : List Element) (run : Run) (s : Session (XmlWriter String)) : Prop where
  policy_eq : s.policy = policy
  layout : s.layout = .document
  writer : s.phase = .inDocument ∧ Mirrors none ⟨[{ tag := policy.names.root, children := es }], []⟩ s.writer ∨
    s.phase = .atRoot ∧ es = [] ∧ Mirrors none {} s.writer
  journaled : ∃ journal, s.run = run.journaled journal
  unmixed : ∀ e ∈ es, e.All Element.Unmixed

namespace Contains

variable {s : Session (XmlWriter String)}

/-- A session that has just been created. -/
theorem created (policy : Policy) (entry : Entry) :
    (({ writer := { out := "" }, policy, layout := .document } : Session (XmlWriter String)).note entry).Contains
      policy [] {} :=
  ⟨rfl, rfl, .inr ⟨rfl, rfl, Mirrors.fresh none⟩, ⟨_, rfl⟩, List.forall_mem_nil _⟩

theorem not_poisoned (h : s.Contains policy es run) : s.phase ≠ .poisoned := by
  rcases h.writer with ⟨hphase, -⟩ | ⟨hphase, -⟩ <;> simp [hphase]

/-- Items are put, and the session ended, as if the root had been opened before. -/
theorem opened (hvalid : policy.validate = .ok ()) (h : s.Contains policy es run) :
    ∃ writer, Mirrors none ⟨[{ tag := policy.names.root, children := es }], []⟩ writer ∧
      (∀ run' e nodes, putItem e nodes { s with run := run' } =
        putItem e nodes { s with run := run', writer, phase := .inDocument }) ∧
      finish s = finish { s with writer, phase := .inDocument } := by
  obtain ⟨writer, sessionPolicy, layout, phase, items, run₁⟩ := s
  obtain rfl : sessionPolicy = policy := h.policy_eq
  obtain rfl : layout = .document := h.layout
  rcases h.writer with ⟨hphase, hmirrors⟩ | ⟨hphase, rfl, hmirrors⟩
  · obtain rfl : phase = .inDocument := hphase
    exact ⟨writer, hmirrors, fun _ _ _ => rfl, rfl⟩
  · obtain rfl : phase = .atRoot := hphase
    have hroot := Policy.names_ne_empty hvalid ("root", sessionPolicy.names.root) (by simp [ElementNames.fields])
    obtain ⟨writer', hput, hmirrors'⟩ := hmirrors.put_openElement hroot
    have hopen (run : Run) :=
      openRoot_of_put (s := ⟨writer, sessionPolicy, .document, .atRoot, items, run⟩) rfl hput
    exact ⟨writer', hmirrors', fun run' e nodes => putItem_of_atRoot rfl (hopen run') rfl e nodes,
      finish_of_atRoot rfl (hopen run₁) rfl⟩

/-- The walk over an item goes as in the run that is given. -/
theorem grow_eq (h : s.Contains policy es run) (value : Value) :
    ∃ journal, grow s.policy value none s.policy.depth { run := s.run } =
      mapState (·.journaled journal) (grow policy value none policy.depth { run }) :=
  grow_eq_of_journaled h.policy_eq h.journaled value

/-- The element of an item is added to the root, unless it has a character that XML cannot carry. -/
theorem item (hvalid : policy.validate = .ok ()) (h : s.Contains policy es run)
    (hgrow : grow policy value none policy.depth { run } = .ok e w) :
    (firstForbidden? e.events = none ∧ ∃ s', serialize value s = .ok () s' ∧ s'.Contains policy (es ++ [e]) w.run) ∨
      ∃ c s', firstForbidden? e.events = some c ∧ serialize value s = .error (.writer (.forbiddenChar c)) s' := by
  obtain ⟨journal, hgrow'⟩ := h.grow_eq value
  rw [hgrow] at hgrow'
  have hproper := (grow_yields_proper policy value none policy.depth).of_ok hgrow
  have hunmixed : ∀ e' ∈ es ++ [e], e'.All Element.Unmixed :=
    List.forall_mem_append.2 ⟨h.unmixed, List.forall_mem_singleton.2 (hproper.mono fun _ he => he.unmixed)⟩
  obtain ⟨writer, hmirrors, hput, -⟩ := h.opened hvalid
  rw [serialize_of_grow_ok h.not_poisoned hgrow', hput, putItem_of_inDocument rfl]
  rcases hmirrors.replay_cases (TreeBuilder.replay_events e _) (hproper.tag_ne_empty hvalid).tag_ne_empty_of_mem_events
    ⟨List.forall_mem_singleton.2 (.intro (.inl rfl) hunmixed), List.forall_mem_nil _⟩ with
    ⟨hnone, writer', hreplay, hmirrors'⟩ | ⟨c, writer', hsome, hreplay⟩
  · rw [hreplay]
    exact .inl ⟨hnone, _, rfl, h.policy_eq, h.layout, .inl ⟨rfl, hmirrors'⟩, ⟨_, rfl⟩, hunmixed⟩
  · rw [hreplay]
    exact .inr ⟨c, _, hsome, rfl⟩

/-- The elements of items are added to the root, up to the first character that XML cannot carry. -/
theorem items {es' : List Element} (hvalid : policy.validate = .ok ()) (h : s.Contains policy es run)
    (hwalks : Walks policy run values es' run') :
    (firstForbidden? (eventsOf es') = none ∧
        ∃ s', values.forM serialize s = .ok () s' ∧ s'.Contains policy (es ++ es') run') ∨
      ∃ c s', firstForbidden? (eventsOf es') = some c ∧
        values.forM serialize s = .error (.writer (.forbiddenChar c)) s' :=
  items_of_item (fun h => h.item hvalid) h hwalks

/-- The end of the session closes the root, which makes a document of it. -/
theorem finished (hvalid : policy.validate = .ok ()) (h : s.Contains policy es run) :
    ∃ s', finish s = .ok () s' ∧
      s'.writer.out.toList = Element.markups none 0 [{ tag := policy.names.root, children := es }] := by
  obtain ⟨writer, hmirrors, -, hfinish⟩ := h.opened hvalid
  obtain ⟨writer', hclose, hmirrors'⟩ := hmirrors.put_closeElement_of_root
  obtain ⟨_, sessionPolicy, layout, phase, items, run₁⟩ := s
  obtain rfl : layout = .document := h.layout
  refine ⟨_, hfinish.trans ((bind_of_ok (onWriter_of_ok hclose)).trans rfl), ?_⟩
  show writer'.out.toList = _
  rw [hmirrors'.out]
  simp [trimmed, TreeBuilder.markup, TreeBuilder.stackMarkup]

end Contains

end Session

/-! ## Documents -/

/-- With a valid policy, the outcome is that of a session whose root is still to be opened. -/
theorem toXml_of_valid (hvalid : policy.validate = .ok ()) (values : List Value) :
    ∃ s : Session (XmlWriter String), s.Contains policy [] {} ∧
      (∀ s', Session.serializeAll values s = .ok () s' → toXml policy values = (.ok s'.writer.out, s'.run)) ∧
      ∀ error s', values.forM Session.serialize s = .error error s' → toXml policy values = (.error error, s'.run) := by
  have hcreate : Session.create ({ out := "" } : XmlWriter String) policy .document =
      .ok (({ writer := { out := "" }, policy, layout := .document } : Session (XmlWriter String)).note
        (.sessionStarted .document policy.depth policy.includeTypeNames)) := by
    rw [Session.create, hvalid]
  refine ⟨_, Session.Contains.created policy (.sessionStarted .document policy.depth policy.includeTypeNames),
    fun s' hall => ?_, fun error s' hforM => ?_⟩
  · simp only [toXml, hcreate, hall]
  · have hall := bind_of_error (k := fun _ => Session.finish) hforM
    rw [toXml, hcreate]
    simp only [Session.serializeAll, hall]

/-- The document of values whose walks give elements: their markup inside the root, unless there is a character that XML
cannot carry, the first of which is the error. -/
theorem toXml_of_walks (hvalid : policy.validate = .ok ()) (hwalks : Walks policy {} values es run') :
    (firstForbidden? (eventsOf es) = none ∧ ∃ xml, (toXml policy values).1 = .ok xml ∧
        xml.toList = Element.markups none 0 [{ tag := policy.names.root, children := es }]) ∨
      ∃ c, firstForbidden? (eventsOf es) = some c ∧
        (toXml policy values).1 = .error (.writer (.forbiddenChar c)) := by
  obtain ⟨s, hs, hok, herror⟩ := toXml_of_valid hvalid values
  rcases hs.items hvalid hwalks with ⟨hnone, s₁, hforM, h₁⟩ | ⟨c, s₁, hsome, hforM⟩
  · obtain ⟨s₂, hfinish, hout⟩ := h₁.finished hvalid
    rw [hok s₂ ((bind_of_ok hforM).trans hfinish)]
    exact .inl ⟨hnone, _, rfl, hout⟩
  · rw [herror _ s₁ hforM]
    exact .inr ⟨c, hsome, rfl⟩

end GraphMarkup
