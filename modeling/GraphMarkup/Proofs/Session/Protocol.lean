import GraphMarkup.Proofs.Session.Calls

/-!
# The protocol of sessions

* `Layout.arrange` : a whole output: all items inside one root element, or each item by itself;
* `Session.Ledger` : a session over a recorder that has written some items;
* `Ledger.next`, `Ledger.finish` : one call, and the end of a session;
* `Session.Protocol` : what a session over a recorder does when it is asked for items and then for its end;
* `session_protocol` : every session over a recorder follows it, from its creation on.
-/

namespace GraphMarkup

open Element (eventsOf eventsOf_append eventsOf_singleton)

/-- A whole output. -/
def Layout.arrange (layout : Layout) (root : String) (elements : List Element) : List Element :=
  match layout with
  | .document => [{ tag := root, children := elements }]
  | .stream => elements

def rootStart (policy : Policy) (layout : Layout) : List Event :=
  match layout with
  | .document => [.openElement policy.names.root]
  | .stream => []

def rootEnd (layout : Layout) : List Event :=
  match layout with
  | .document => [.closeElement]
  | .stream => []

/-- The events of items whose output is not yet complete. With no items the root is not open yet. -/
def openEvents (policy : Policy) (layout : Layout) (elements : List Element) : List Event :=
  if elements = [] then [] else rootStart policy layout ++ eventsOf elements

theorem eventsOf_arrange (policy : Policy) (layout : Layout) (elements : List Element) :
    eventsOf (layout.arrange policy.names.root elements) =
      rootStart policy layout ++ eventsOf elements ++ rootEnd layout := by
  cases layout with
  | document =>
    rw [Layout.arrange, eventsOf_singleton]
    rfl
  | stream => simp [Layout.arrange, rootStart, rootEnd]

namespace Session

/-- A session over a recorder that has written items, and perhaps failed since. -/
structure Ledger (policy : Policy) (layout : Layout) (elements : List Element) (s : Session Recorder) : Prop where
  policy_eq : s.policy = policy
  layout_eq : s.layout = layout
  phase : s.phase = .poisoned ∨ s.phase = if elements = [] then .atRoot else .inDocument
  items : s.items = elements.length
  writer : s.writer = ({} : Recorder).append (openEvents policy layout elements)

variable {policy : Policy} {layout : Layout} {elements : List Element} {s s₀ : Session Recorder}

theorem openRoot_eq (s : Session Recorder) :
    openRoot s = .ok () { s with writer := s.writer.append (rootStart s.policy s.layout), phase := .inDocument } := by
  obtain ⟨writer, policy, layout, phase, items, run⟩ := s
  cases layout <;> rfl

/-- A recorder takes any item, and the start of the root in front of the first one. -/
theorem putItem_eq (e : Element) (nodes : Nat) (hphase : s.phase ≠ .poisoned) :
    putItem e nodes s = .ok ()
      { s with writer := s.writer.append ((if s.phase = .atRoot then rootStart s.policy s.layout else []) ++ e.events),
               phase := .inDocument, items := s.items + 1,
               run := s.run.note (.itemWritten (s.items + 1) nodes e.events.length) } := by
  have hreplay (r : Recorder) : Writer.replay e.events r = .ok () (r.append e.events) := Recorder.replay_events e r
  cases hs : s.phase with
  | atRoot =>
    rw [putItem_of_atRoot hs (openRoot_eq s) rfl, putItem_of_inDocument rfl, hreplay, Recorder.append_append]
    rfl
  | inDocument =>
    rw [putItem_of_inDocument hs, hreplay, hs]
    rfl
  | poisoned => exact absurd hs hphase

theorem finish_of_inDocument (h : s.phase = .inDocument) (hdepth : s.layout = .document → s.writer.depth ≠ 0) :
    finish s = .ok ()
      { s with writer := s.writer.append (rootEnd s.layout), run := s.run.note (.sessionDone s.items) } := by
  obtain ⟨writer, policy, layout, phase, items, run⟩ := s
  obtain rfl : phase = .inDocument := h
  cases layout with
  | document =>
    have hclose : Writer.put .closeElement writer = .ok () (writer.push .closeElement) :=
      Recorder.put_closeElement (hdepth rfl)
    exact bind_of_ok (onWriter_of_ok hclose)
  | stream => rfl

namespace Ledger

theorem created (h : create ({} : Recorder) policy layout = .ok s) :
    Ledger policy layout [] s ∧ s.phase ≠ .poisoned := by
  unfold create at h
  split at h
  · cases h
  · cases h
    exact ⟨⟨rfl, rfl, .inr rfl, rfl, rfl⟩, by simp [note]⟩

theorem phase_eq_atRoot_iff (h : Ledger policy layout elements s) (hphase : s.phase ≠ .poisoned) :
    s.phase = .atRoot ↔ elements = [] := by
  rw [h.phase.resolve_left hphase]
  by_cases hempty : elements = []
  · simp [hempty]
  · simp [hempty]

theorem openEvents_append_item (policy : Policy) (layout : Layout) (elements : List Element) (e : Element) :
    openEvents policy layout (elements ++ [e]) =
      openEvents policy layout elements ++ ((if elements = [] then rootStart policy layout else []) ++ e.events) := by
  by_cases hempty : elements = []
  · simp [openEvents, hempty, eventsOf_singleton]
  · simp [openEvents, hempty, eventsOf_append, eventsOf_singleton]

theorem serialize_ok (h : Ledger policy layout elements s) (hphase : s.phase ≠ .poisoned) {value : Value} {e : Element}
    {w : Walker} (hgrow : grow s.policy value none s.policy.depth { run := s.run } = .ok e w) :
    ∃ s', serialize value s = .ok () s' ∧ s'.phase ≠ .poisoned ∧ Ledger policy layout (elements ++ [e]) s' := by
  have hput := putItem_eq (s := { s with run := w.run }) e w.visited hphase
  rw [serialize_of_grow_ok hphase hgrow, hput]
  refine ⟨_, rfl, ?_, ⟨h.policy_eq, h.layout_eq, .inr ?_, ?_, ?_⟩⟩
  · simp
  · simp
  · simp [h.items]
  · have hstart : (if s.phase = .atRoot then rootStart s.policy s.layout else []) =
        if elements = [] then rootStart policy layout else [] := by
      simp only [h.phase_eq_atRoot_iff hphase, h.policy_eq, h.layout_eq]
    rw [openEvents_append_item, ← hstart, ← Recorder.append_append {} (openEvents policy layout elements), ← h.writer]

/-- An item is written, or it fails and the session is poisoned. -/
theorem serialize_cases (h : Ledger policy layout elements s) (value : Value) :
    (∃ e s', s.itemElement? value = some e ∧ serialize value s = .ok () s' ∧ s.phase ≠ .poisoned ∧
      s'.phase ≠ .poisoned ∧ Ledger policy layout (elements ++ [e]) s') ∨
    ∃ error s', s.itemElement? value = none ∧ serialize value s = .error error s' ∧ s'.phase = .poisoned ∧
      Ledger policy layout elements s' := by
  by_cases hphase : s.phase = .poisoned
  · exact .inr ⟨_, s, if_pos hphase, serialize_of_poisoned hphase value, hphase, h⟩
  · cases hgrow : grow s.policy value none s.policy.depth { run := s.run } with
    | ok e w =>
      obtain ⟨s', hserialize, hphase', hledger⟩ := h.serialize_ok hphase hgrow
      exact .inl ⟨e, s', itemElement?_of_grow_ok hphase hgrow, hserialize, hphase, hphase', hledger⟩
    | error e w =>
      refine .inr ⟨_, _, ?_, serialize_of_grow_error hphase hgrow, rfl, ⟨h.policy_eq, h.layout_eq, .inl rfl, h.items,
        h.writer⟩⟩
      rw [itemElement?, if_neg hphase, hgrow]

theorem requestStop (h : Ledger policy layout elements s) : Ledger policy layout elements s.requestStop :=
  ⟨h.policy_eq, h.layout_eq, h.phase, h.items, h.writer⟩

/-- The end of a session that has not been poisoned. -/
theorem finish_ok (h : Ledger policy layout elements s) (hphase : s.phase ≠ .poisoned) :
    ∃ s', finish s = .ok () s' ∧ s'.items = elements.length ∧
      s'.writer = ({} : Recorder).append (eventsOf (layout.arrange policy.names.root elements)) := by
  -- The root is open, or is opened first.
  obtain ⟨s₁, hfinish, hphase₁, hwriter₁, hlayout₁, hitems₁⟩ : ∃ s₁ : Session Recorder, finish s = finish s₁ ∧
      s₁.phase = .inDocument ∧ s₁.writer = ({} : Recorder).append (rootStart policy layout ++ eventsOf elements) ∧
      s₁.layout = layout ∧ s₁.items = elements.length := by
    by_cases hempty : elements = []
    · have hroot := (h.phase_eq_atRoot_iff hphase).2 hempty
      refine ⟨_, finish_of_atRoot hroot (openRoot_eq s) rfl, rfl, ?_, h.layout_eq, h.items⟩
      simp [h.writer, h.policy_eq, h.layout_eq, openEvents, hempty, eventsOf]
    · refine ⟨s, rfl, (h.phase.resolve_left hphase).trans (if_neg hempty), ?_, h.layout_eq, h.items⟩
      rw [h.writer, openEvents, if_neg hempty]
  have hdepth : s₁.layout = .document → s₁.writer.depth ≠ 0 := by
    intro hdocument
    rw [hwriter₁, ← hlayout₁, hdocument, ← Recorder.append_append, (Recorder.steady_eventsOf elements _).1]
    exact Nat.one_ne_zero
  rw [hfinish, finish_of_inDocument hphase₁ hdepth]
  refine ⟨_, rfl, hitems₁, ?_⟩
  rw [hwriter₁, hlayout₁, eventsOf_arrange, Recorder.append_append]

/-- Calls on a session that has written items already: each that succeeds writes one more. -/
theorem after (h : Ledger policy layout elements s) (calls : List Call) :
    Ledger policy layout (elements ++ s.written calls) (s.after calls) ∧
      (s.outcomes calls).countP Except.isOk = (s.written calls).length ∧
      ((s.after calls).phase = .poisoned ↔ s.phase = .poisoned ∨ ∃ e, .error e ∈ s.outcomes calls) := by
  induction calls generalizing elements s with
  | nil => exact ⟨by rwa [written, List.append_nil], rfl, by simp [Session.after, outcomes]⟩
  | cons call calls ih =>
    cases call with
    | requestStop => exact ih h.requestStop
    | serialize value =>
      have hafter : s.after (.serialize value :: calls) = (s.next (.serialize value)).after calls := rfl
      rw [hafter, written, outcomes]
      rcases h.serialize_cases value with
        ⟨e, s', hitem, hserialize, hphase, hphase', hledger⟩ | ⟨error, s', hitem, hserialize, hphase', hledger⟩
      · have hnext : s.next (.serialize value) = s' := by rw [next, hserialize, endState]
        obtain ⟨hledger', hcount, hpoisoned⟩ := ih hledger
        simp only [hnext, hitem, hserialize, Option.toList_some, ← List.append_assoc]
        refine ⟨hledger', ?_, ?_⟩
        · rw [List.countP_cons_of_pos rfl, hcount]
          rfl
        · simp [hpoisoned, hphase, hphase']
      · have hnext : s.next (.serialize value) = s' := by rw [next, hserialize, endState]
        obtain ⟨hledger', hcount, hpoisoned⟩ := ih hledger
        simp only [hnext, hitem, hserialize, Option.toList_none, List.nil_append]
        refine ⟨hledger', ?_, ?_⟩
        · rw [List.countP_cons_of_neg (by exact Bool.false_ne_true), hcount]
        · simp [hpoisoned, hphase']

end Ledger

/-! ## The protocol -/

/-- What a session over a recorder does when it is asked for items and then for its end. The items that it writes are
those of the calls that succeed, in order, and it counts them. The root is open from the first of them on. If all calls
have succeeded, the end completes the output. If one has failed, the session refuses everything that follows, and
leaves the recorder alone. -/
structure Protocol (policy : Policy) (layout : Layout) (s₀ : Session Recorder) (calls : List Call) : Prop where
  successes : (s₀.outcomes calls).countP Except.isOk = (s₀.written calls).length
  items : (s₀.after calls).items = (s₀.written calls).length
  events : (s₀.after calls).writer.events.toList = openEvents policy layout (s₀.written calls)
  completed : (∀ outcome ∈ s₀.outcomes calls, outcome = .ok ()) →
    ∃ s, finish (s₀.after calls) = .ok () s ∧ s.items = (s₀.written calls).length ∧
      s.writer.events.toList = eventsOf (layout.arrange policy.names.root (s₀.written calls))
  refused : (∃ e, .error e ∈ s₀.outcomes calls) → ∀ later : List Call,
    (∀ outcome ∈ (s₀.after calls).outcomes later, outcome = .error .sessionPoisoned) ∧
      ((s₀.after calls).after later).writer = (s₀.after calls).writer ∧
      finish ((s₀.after calls).after later) = .error .sessionPoisoned ((s₀.after calls).after later)

/-- Every session over a recorder follows the protocol, from its creation on. -/
theorem session_protocol (h : create ({} : Recorder) policy layout = .ok s₀) (calls : List Call) :
    Protocol policy layout s₀ calls := by
  obtain ⟨hcreated, hroot⟩ := Ledger.created h
  obtain ⟨hledger, hcount, hpoisoned⟩ := hcreated.after calls
  rw [List.nil_append] at hledger
  refine ⟨hcount, hledger.items, ?_, ?_, ?_⟩
  · rw [hledger.writer, Recorder.events_append]
    simp
  · intro hok
    have hphase : (s₀.after calls).phase ≠ .poisoned := by
      intro hphase
      obtain ⟨e, he⟩ := (hpoisoned.1 hphase).resolve_left hroot
      cases hok _ he
    obtain ⟨s, hfinish, hitems, hwriter⟩ := hledger.finish_ok hphase
    refine ⟨s, hfinish, hitems, ?_⟩
    rw [hwriter, Recorder.events_append]
    simp
  · intro hfailed later
    have hphase : (s₀.after calls).phase = .poisoned := hpoisoned.2 (.inr hfailed)
    obtain ⟨hphase', hwriter⟩ := after_of_poisoned hphase later
    exact ⟨outcomes_of_poisoned hphase later, hwriter, finish_of_poisoned hphase'⟩

/-- An item, an item whose only property requests a stop while it is read, and one more item. -/
theorem protocol_of_stopped_item :
    ∃ s₀, create ({} : Recorder) {} .document = .ok s₀ ∧
      Protocol {} .document s₀
        [.serialize (.scalar (.bool true)),
          .serialize (.object "T" [⟨"p", none, .deferred { id := 0, first := .ok .null, stopsOn := some 1 }⟩,
            ⟨"q", none, .ready .null⟩] none),
          .serialize .null] :=
  ⟨_, rfl, session_protocol rfl _⟩

end Session

end GraphMarkup
