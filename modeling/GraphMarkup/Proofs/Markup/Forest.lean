import GraphMarkup.Markup.Element
import GraphMarkup.Markup.Recorder
import GraphMarkup.Proofs.Markup.Replay

/-!
# The events of element trees

* `Element.events`, `Element.eventsOf` : the events that write an element, and elements in a row;
* `Recorder.append` : a recorder with more events, in place or not;
* `Recorder.Steady` : events that leave as many elements open as there were and never fewer in between;
* `replay_events` : a recorder takes the events of any element, wherever it stands.
-/

namespace GraphMarkup

abbrev attrEvents (attributes : List (String × String)) : List Event := attributes.map fun a => .attr a.1 a.2

abbrev textEvents (text : Option String) : List Event := (text.map Event.text).toList

namespace Element

mutual

def events : Element → List Event
  | ⟨tag, attributes, text, children⟩ =>
    .openElement tag :: (attrEvents attributes ++ textEvents text ++ eventsOf children) ++ [.closeElement]

def eventsOf : List Element → List Event
  | [] => []
  | e :: es => events e ++ eventsOf es

end

theorem eventsOf_append (es fs : List Element) : eventsOf (es ++ fs) = eventsOf es ++ eventsOf fs := by
  induction es with
  | nil => rfl
  | cons e es ih => rw [List.cons_append, eventsOf, eventsOf, ih, List.append_assoc]

theorem eventsOf_singleton (e : Element) : eventsOf [e] = e.events := by
  rw [eventsOf, eventsOf, List.append_nil]

/-- What holds of an element if it holds of its children holds of all elements. -/
theorem induct {P : Element → Prop} (step : ∀ e : Element, (∀ c ∈ e.children, P c) → P e) : ∀ e, P e
  | ⟨tag, attributes, text, children⟩ => step _ fun c _hc => induct step c
termination_by e => sizeOf e
decreasing_by
  have hsize := List.sizeOf_lt_of_mem (show c ∈ children from _hc)
  simp only [mk.sizeOf_spec]
  omega

end Element

namespace Recorder

variable {r : Recorder}

def push (r : Recorder) (event : Event) : Recorder :=
  match event with
  | .openElement _ => { events := r.events.push event, depth := r.depth + 1, maxDepth := max r.maxDepth (r.depth + 1) }
  | .attr .. | .text _ => { r with events := r.events.push event }
  | .closeElement => { r with events := r.events.push event, depth := r.depth - 1 }

def append (r : Recorder) (events : List Event) : Recorder := events.foldl push r

@[simp] theorem append_nil (r : Recorder) : r.append [] = r := rfl

theorem append_append (r : Recorder) (events later : List Event) :
    (r.append events).append later = r.append (events ++ later) := List.foldl_append.symm

theorem append_cons (r : Recorder) (event : Event) (events : List Event) :
    r.append (event :: events) = (r.push event).append events := rfl

theorem events_append (r : Recorder) (events : List Event) : (r.append events).events = r.events ++ events.toArray := by
  induction events generalizing r with
  | nil => simp
  | cons event events ih =>
    have hpush : (r.push event).events = r.events.push event := by cases event <;> rfl
    rw [append_cons, ih, hpush]
    simp

/-! ## Events in place -/

theorem put_attr {name value : String} (h : r.inStartTag) :
    put (.attr name value) r = .ok () (r.push (.attr name value)) := by
  simp only [put, if_pos h]
  rfl

theorem put_text {content : String} (h : r.depth ≠ 0) : put (.text content) r = .ok () (r.push (.text content)) := by
  simp only [put, if_neg h]
  rfl

theorem put_closeElement (h : r.depth ≠ 0) : put .closeElement r = .ok () (r.push .closeElement) := by
  simp only [put, if_neg h]
  rfl

theorem inStartTag_push_attr (r : Recorder) (name value : String) : (r.push (.attr name value)).inStartTag := by
  simp [push, inStartTag]

theorem replay_attributes (as : List (String × String)) (h : r.inStartTag) :
    Writer.replay (attrEvents as) r = .ok () (r.append (attrEvents as)) := by
  induction as generalizing r with
  | nil => rfl
  | cons a as ih => exact (Writer.replay_cons_of_ok (put_attr h)).trans (ih (inStartTag_push_attr ..))

theorem put_eq_push {event : Event} {r' : Recorder} (h : put event r = .ok () r') : r' = r.push event := by
  cases event with
  | openElement tag =>
    cases h
    rfl
  | attr name value =>
    by_cases hstart : r.inStartTag
    · rw [put_attr hstart] at h
      cases h
      rfl
    · simp only [put, if_neg hstart] at h
      cases h
  | text content =>
    by_cases hdepth : r.depth = 0
    · simp only [put, if_pos hdepth] at h
      cases h
    · rw [put_text hdepth] at h
      cases h
      rfl
  | closeElement =>
    by_cases hdepth : r.depth = 0
    · simp only [put, if_pos hdepth] at h
      cases h
    · rw [put_closeElement hdepth] at h
      cases h
      rfl

theorem replay_eq_append {events : List Event} {r' : Recorder} (h : Writer.replay events r = .ok () r') :
    r' = r.append events := by
  induction events generalizing r with
  | nil =>
    cases h
    rfl
  | cons event events ih =>
    obtain ⟨r₁, hput, hrest⟩ := Writer.exists_of_replay_cons h
    rw [ih hrest, put_eq_push hput, append_cons]

/-- What is taken is taken event by event. -/
theorem replay_of_prefix {before events : List Event} {r' : Recorder} (h : Writer.replay events r = .ok () r')
    (hinitial : before <+: events) : Writer.replay before r = .ok () (r.append before) := by
  obtain ⟨after, rfl⟩ := hinitial
  cases hbefore : Writer.replay before r with
  | ok _ r₁ => rw [replay_eq_append hbefore]
  | error e r₁ =>
    rw [Writer.replay_append_of_error hbefore] at h
    cases h

/-! ## Open elements -/

/-- Events that leave as many elements open as there were, and never fewer in between. -/
def Steady (events : List Event) : Prop :=
  ∀ r : Recorder, (r.append events).depth = r.depth ∧ ∀ before, before <+: events → r.depth ≤ (r.append before).depth

theorem steady_nil : Steady [] := by
  refine fun r => ⟨rfl, fun before h => ?_⟩
  rw [List.prefix_nil.1 h]
  exact Nat.le_refl _

theorem Steady.append {events later : List Event} (h : Steady events) (h' : Steady later) :
    Steady (events ++ later) := by
  intro r
  obtain ⟨hdepth, hbefore⟩ := h r
  obtain ⟨hdepth', hbefore'⟩ := h' (r.append events)
  rw [← append_append]
  refine ⟨hdepth'.trans hdepth, fun before hinitial => ?_⟩
  rcases List.prefix_or_prefix_of_prefix hinitial (List.prefix_append events later) with hshort | ⟨rest, rfl⟩
  · exact hbefore before hshort
  · have hrest := hbefore' rest ((List.prefix_append_right_inj events).1 hinitial)
    rw [append_append, hdepth] at hrest
    exact hrest

theorem steady_of_push {event : Event} (h : ∀ r : Recorder, (r.push event).depth = r.depth) : Steady [event] := by
  refine fun r => ⟨h r, fun before hinitial => ?_⟩
  rcases List.prefix_cons_iff.1 hinitial with rfl | ⟨rest, rfl, hrest⟩
  · exact Nat.le_refl _
  · rw [List.prefix_nil.1 hrest]
    exact Nat.le_of_eq (h r).symm

theorem steady_attributes (as : List (String × String)) : Steady (attrEvents as) := by
  induction as with
  | nil => exact steady_nil
  | cons a as ih => exact (steady_of_push fun _ => rfl).append ih

/-- One element stays open while what is inside it is steady. -/
theorem Steady.element {inside : List Event} (h : Steady inside) (tag : String) :
    Steady (.openElement tag :: inside ++ [.closeElement]) := by
  intro r
  obtain ⟨hdepth, hbefore⟩ := h (r.push (.openElement tag))
  have hopen : (r.push (.openElement tag)).depth = r.depth + 1 := rfl
  have hclose : (r.append (.openElement tag :: inside ++ [.closeElement])).depth = r.depth := by
    rw [List.cons_append, append_cons, ← append_append]
    show ((r.push (.openElement tag)).append inside).depth - 1 = r.depth
    omega
  refine ⟨hclose, fun before hinitial => ?_⟩
  rcases List.prefix_concat_iff.1 hinitial with rfl | hinitial
  · exact Nat.le_of_eq hclose.symm
  · rcases List.prefix_cons_iff.1 hinitial with rfl | ⟨rest, rfl, hrest⟩
    · exact Nat.le_refl _
    · have := hbefore rest hrest
      rw [append_cons]
      omega

theorem steady_eventsOf_of_forall {es : List Element} (h : ∀ e ∈ es, Steady e.events) :
    Steady (Element.eventsOf es) := by
  induction es with
  | nil => exact steady_nil
  | cons e es ih =>
    obtain ⟨he, hes⟩ := List.forall_mem_cons.1 h
    exact he.append (ih hes)

theorem steady_events (e : Element) : Steady e.events := by
  induction e using Element.induct with
  | step e ih =>
    obtain ⟨tag, attributes, text, children⟩ := e
    have htext : Steady (textEvents text) := by
      cases text with
      | none => exact steady_nil
      | some text => exact steady_of_push fun _ => rfl
    exact (((steady_attributes attributes).append htext).append (steady_eventsOf_of_forall ih)).element tag

theorem steady_eventsOf (es : List Element) : Steady (Element.eventsOf es) :=
  steady_eventsOf_of_forall fun e _ => steady_events e

/-! ## Whole elements -/

theorem replay_eventsOf_of_forall {es : List Element}
    (h : ∀ e ∈ es, ∀ r : Recorder, Writer.replay e.events r = .ok () (r.append e.events)) (r : Recorder) :
    Writer.replay (Element.eventsOf es) r = .ok () (r.append (Element.eventsOf es)) := by
  induction es generalizing r with
  | nil => rfl
  | cons e es ih =>
    obtain ⟨he, hes⟩ := List.forall_mem_cons.1 h
    rw [Element.eventsOf, Writer.replay_append_of_ok (he r), ih hes, append_append]

/-- A recorder takes the events of any element, wherever it stands. -/
theorem replay_events (e : Element) (r : Recorder) : Writer.replay e.events r = .ok () (r.append e.events) := by
  induction e using Element.induct generalizing r with
  | step e ih =>
    obtain ⟨tag, attributes, text, children⟩ := e
    rw [Element.events, List.cons_append, append_cons,
      Writer.replay_cons_of_ok (show Writer.put (.openElement tag) r = .ok () (r.push (.openElement tag)) from rfl)]
    have hstart : (r.push (.openElement tag)).inStartTag := by simp [push, inStartTag]
    have hdepth : (r.push (.openElement tag)).depth = r.depth + 1 := rfl
    generalize r.push (.openElement tag) = r at hstart hdepth ⊢
    rw [List.append_assoc, List.append_assoc, Writer.replay_append_of_ok (replay_attributes attributes hstart),
      ← append_append]
    have hattributes := (steady_attributes attributes r).1
    generalize r.append (attrEvents attributes) = r at hattributes ⊢
    have htext : Writer.replay (textEvents text) r = .ok () (r.append (textEvents text)) ∧
        (r.append (textEvents text)).depth = r.depth := by
      cases text with
      | none => exact ⟨rfl, rfl⟩
      | some text => exact ⟨Writer.replay_cons_of_ok (put_text (by omega)), rfl⟩
    rw [Writer.replay_append_of_ok htext.1, ← append_append,
      Writer.replay_append_of_ok (replay_eventsOf_of_forall ih _), ← append_append]
    refine Writer.replay_cons_of_ok (put_closeElement ?_)
    rw [(steady_eventsOf children _).1]
    omega

end Recorder

end GraphMarkup
