import GraphMarkup.Proofs.Markup.Emission
import GraphMarkup.Proofs.Markup.Forest
import GraphMarkup.Proofs.Markup.Rendering

/-!
# What an XML writer keeps of events that it refuses

* `Event.IsWritable`, `firstForbidden?` : an event whose character data is such as XML can carry, and the first character
  in the data of events that is not;
* `XmlWriter.Extends` : the text of a writer only grows;
* `replay_extends`, `length_lt_of_replay` : it does so in every replay, and strictly if an element is opened first;
* `isWritable_of_replay`, `replay_element` : the events of an element are all taken exactly if they are writable.
-/

namespace GraphMarkup

/-- An event whose character data is such as XML can carry. -/
def Event.IsWritable : Event → Prop
  | .attr _ value => Markup.IsXmlText value
  | .text content => Markup.IsXmlText content
  | .openElement _ | .closeElement => True

def Event.data : Event → List Char
  | .attr _ value => value.toList
  | .text content => content.toList
  | .openElement _ | .closeElement => []

theorem Event.isWritable_iff {event : Event} : event.IsWritable ↔ ∀ c ∈ event.data, Markup.isXmlChar c := by
  cases event with
  | attr | text => exact Iff.rfl
  | openElement | closeElement => simp [IsWritable, data]

/-- The first character in the data of events that XML cannot carry. -/
def firstForbidden? (events : List Event) : Option Char :=
  (events.flatMap Event.data).find? fun c => !Markup.isXmlChar c

theorem firstForbidden?_cons (event : Event) (events : List Event) :
    firstForbidden? (event :: events) =
      (event.data.find? fun c => !Markup.isXmlChar c).or (firstForbidden? events) := by
  rw [firstForbidden?, List.flatMap_cons, List.find?_append]
  rfl

theorem firstForbidden?_append (events later : List Event) :
    firstForbidden? (events ++ later) = (firstForbidden? events).or (firstForbidden? later) := by
  rw [firstForbidden?, List.flatMap_append, List.find?_append]
  rfl

/-- Events without a forbidden character are those that can be written. -/
theorem firstForbidden?_eq_none_iff {events : List Event} :
    firstForbidden? events = none ↔ ∀ event ∈ events, event.IsWritable := by
  simp only [firstForbidden?, List.find?_eq_none, List.mem_flatMap, Event.isWritable_iff]
  constructor
  · intro h event hevent c hc
    simpa using h c ⟨event, hevent, hc⟩
  · rintro h c ⟨event, hevent, hc⟩
    simp [h event hevent c hc]

theorem isXmlChar_of_firstForbidden? {events : List Event} {c : Char} (h : firstForbidden? events = some c) :
    Markup.isXmlChar c = false := by
  simpa using List.find?_some h

namespace XmlWriter

variable {w w' w'' : XmlWriter String}

/-! ## Growth -/

/-- A writer that has written some more text. -/
def Extends (w w' : XmlWriter String) : Prop := ∃ piece, w'.out = w.out ++ piece

theorem Extends.refl (w : XmlWriter String) : w.Extends w := ⟨"", String.append_empty.symm⟩

theorem Extends.trans (h : w.Extends w') (h' : w'.Extends w'') : w.Extends w'' := by
  obtain ⟨piece, hpiece⟩ := h
  obtain ⟨piece', hpiece'⟩ := h'
  exact ⟨piece ++ piece', by rw [hpiece', hpiece, String.append_assoc]⟩

theorem openElement_extends (tag : String) (w : XmlWriter String) : w.Extends (endState (openElement tag w)) := by
  by_cases htag : tag = ""
  · subst htag
    exact Extends.refl w
  · rw [openElement_eq htag]
    exact ⟨w.tagEnd ++ w.breakAt w.stack.length ++ ("<" ++ tag), by simp [endState, String.append_assoc]⟩

theorem attr_extends (name value : String) (w : XmlWriter String) : w.Extends (endState (attr name value w)) := by
  cases hopen : w.startTagOpen with
  | false =>
    rw [attr_eq_stray hopen]
    exact Extends.refl w
  | true =>
    by_cases hvalue : Markup.IsXmlText value
    · rw [attr_eq hopen (Markup.escape_eq_ok hvalue)]
      exact ⟨_, rfl⟩
    · obtain ⟨c, -, hescape⟩ := Markup.escape_eq_error .attrValue hvalue
      rw [attr_eq_error hopen hescape]
      exact Extends.refl w

theorem text_extends (content : String) (w : XmlWriter String) : w.Extends (endState (text content w)) := by
  cases hstack : w.stack with
  | nil =>
    rw [text_eq_stray hstack]
    exact Extends.refl w
  | cons e rest =>
    by_cases hcontent : Markup.IsXmlText content
    · rw [text_eq hstack (Markup.escape_eq_ok hcontent)]
      exact ⟨_, String.append_assoc⟩
    · obtain ⟨c, -, hescape⟩ := Markup.escape_eq_error .content hcontent
      rw [text_eq_error hstack hescape]
      exact Extends.refl w

theorem closeElement_extends (w : XmlWriter String) : w.Extends (endState (closeElement w)) := by
  cases hstack : w.stack with
  | nil =>
    rw [closeElement_eq_stray hstack]
    exact Extends.refl w
  | cons e rest =>
    rw [closeElement_eq hstack]
    exact ⟨_, rfl⟩

theorem put_extends (event : Event) (w : XmlWriter String) : w.Extends (endState (XmlWriter.put event w)) := by
  cases event with
  | openElement tag => exact openElement_extends tag w
  | attr name value => exact attr_extends name value w
  | text content => exact text_extends content w
  | closeElement => exact closeElement_extends w

theorem replay_extends (events : List Event) (w : XmlWriter String) :
    w.Extends (endState (Writer.replay events w)) := by
  induction events generalizing w with
  | nil => exact Extends.refl w
  | cons event events ih =>
    have hput := put_extends event w
    cases h : XmlWriter.put event w with
    | ok _ w' =>
      rw [h] at hput
      rw [Writer.replay_cons_of_ok h]
      exact hput.trans (ih w')
    | error e w' =>
      rw [h] at hput
      rw [Writer.replay_cons_of_error h]
      exact hput

theorem Extends.length_le (h : w.Extends w') : w.out.length ≤ w'.out.length := by
  obtain ⟨piece, hpiece⟩ := h
  rw [hpiece, String.length_append]
  omega

/-- An element that has been opened leaves a trace, whatever follows. -/
theorem length_lt_of_replay {tag : String} (htag : tag ≠ "") (events : List Event) (w : XmlWriter String) :
    w.out.length < (endState (Writer.replay (.openElement tag :: events) w)).out.length := by
  rw [Writer.replay_cons_of_ok (openElement_eq htag)]
  have hrest := (replay_extends events { w with
    out := w.out ++ w.tagEnd ++ w.breakAt w.stack.length ++ ("<" ++ tag)
    stack := { tag } :: w.noteChild.stack
    startTagOpen := true
    written := true }).length_le
  simp only [String.length_append] at hrest
  have hlt : ("<" : String).length = 1 := rfl
  omega

/-! ## Writable events -/

theorem isWritable_of_put {event : Event} (h : XmlWriter.put event w = .ok () w') : event.IsWritable := by
  cases event with
  | openElement tag => trivial
  | closeElement => trivial
  | attr name value =>
    apply Classical.byContradiction
    intro hvalue
    obtain ⟨c, -, hescape⟩ := Markup.escape_eq_error .attrValue hvalue
    cases hopen : w.startTagOpen with
    | false =>
      cases (attr_eq_stray hopen).symm.trans h
    | true =>
      cases (attr_eq_error hopen hescape).symm.trans h
  | text content =>
    apply Classical.byContradiction
    intro hcontent
    obtain ⟨c, -, hescape⟩ := Markup.escape_eq_error .content hcontent
    cases hstack : w.stack with
    | nil =>
      cases (text_eq_stray hstack).symm.trans h
    | cons e rest =>
      cases (text_eq_error hstack hescape).symm.trans h

theorem isWritable_of_replay {events : List Event} (h : Writer.replay events w = .ok () w') :
    ∀ event ∈ events, event.IsWritable := by
  induction events generalizing w with
  | nil => exact List.forall_mem_nil _
  | cons event events ih =>
    obtain ⟨w₁, hput, hrest⟩ := Writer.exists_of_replay_cons h
    exact List.forall_mem_cons.2 ⟨isWritable_of_put hput, ih hrest⟩

/-! ## Elements -/

theorem put_openElement {tag : String} (htag : tag ≠ "") (w : XmlWriter String) :
    ∃ w', Writer.put (.openElement tag) w = .ok () w' ∧ w'.startTagOpen = true ∧
      w'.stack.length = w.stack.length + 1 := by
  refine ⟨_, openElement_eq htag, rfl, ?_⟩
  unfold noteChild
  split
  · rfl
  · next hstack => simp [hstack]

theorem put_attr {name value : String} (hopen : w.startTagOpen = true) (hvalue : Markup.IsXmlText value) :
    ∃ w', Writer.put (.attr name value) w = .ok () w' ∧ w'.startTagOpen = true ∧ w'.stack = w.stack :=
  ⟨_, attr_eq hopen (Markup.escape_eq_ok hvalue), hopen, rfl⟩

theorem put_text {content : String} (hstack : w.stack ≠ []) (hcontent : Markup.IsXmlText content) :
    ∃ w', Writer.put (.text content) w = .ok () w' ∧ w'.stack.length = w.stack.length := by
  obtain ⟨e, rest, hcons⟩ := List.exists_cons_of_ne_nil hstack
  exact ⟨_, text_eq hcons (Markup.escape_eq_ok hcontent), by simp [hcons]⟩

theorem put_closeElement {n : Nat} (hstack : w.stack.length = n + 1) :
    ∃ w', Writer.put .closeElement w = .ok () w' ∧ w'.stack.length = n := by
  obtain ⟨e, rest, hcons⟩ := List.exists_cons_of_length_eq_add_one hstack
  refine ⟨_, closeElement_eq hcons, ?_⟩
  simpa [hcons] using hstack

theorem replay_attributes {as : List (String × String)}
    (has : ∀ event ∈ attrEvents as, event.IsWritable) (hopen : w.startTagOpen = true) :
    ∃ w', Writer.replay (attrEvents as) w = .ok () w' ∧ w'.stack = w.stack := by
  induction as generalizing w with
  | nil => exact ⟨w, rfl, rfl⟩
  | cons a as ih =>
    obtain ⟨ha, has⟩ := List.forall_mem_cons.1 has
    obtain ⟨w₁, hput, hopen₁, hstack₁⟩ := put_attr hopen ha
    obtain ⟨w₂, hreplay, hstack₂⟩ := ih has hopen₁
    exact ⟨w₂, (Writer.replay_cons_of_ok hput).trans hreplay, hstack₂.trans hstack₁⟩

theorem replay_text {text : Option String} (htext : ∀ event ∈ textEvents text, event.IsWritable)
    (hstack : w.stack ≠ []) :
    ∃ w', Writer.replay (textEvents text) w = .ok () w' ∧ w'.stack.length = w.stack.length := by
  cases text with
  | none => exact ⟨w, rfl, rfl⟩
  | some text =>
    obtain ⟨w', hput, hlength⟩ := put_text hstack (htext (.text text) (List.mem_singleton_self _))
    exact ⟨w', Writer.replay_cons_of_ok hput, hlength⟩

theorem replay_eventsOf {es : List Element} (hwritable : ∀ event ∈ Element.eventsOf es, event.IsWritable)
    (h : ∀ e ∈ es, (∀ event ∈ e.events, event.IsWritable) → ∀ w : XmlWriter String,
      ∃ w', Writer.replay e.events w = .ok () w' ∧ w'.stack.length = w.stack.length) (w : XmlWriter String) :
    ∃ w', Writer.replay (Element.eventsOf es) w = .ok () w' ∧ w'.stack.length = w.stack.length := by
  induction es generalizing w with
  | nil => exact ⟨w, rfl, rfl⟩
  | cons e es ih =>
    obtain ⟨he, hes⟩ := List.forall_mem_cons.1 h
    obtain ⟨hwritable₁, hwritable₂⟩ := List.forall_mem_append.1 hwritable
    obtain ⟨w₁, hreplay₁, hlength₁⟩ := he hwritable₁ w
    obtain ⟨w₂, hreplay₂, hlength₂⟩ := ih hwritable₂ hes w₁
    exact ⟨w₂, (Writer.replay_append_of_ok hreplay₁).trans hreplay₂, hlength₂.trans hlength₁⟩

/-- Writable events of an element are all taken, as long as no tag is empty. -/
theorem replay_element {e : Element} (htags : e.All fun e => e.tag ≠ "")
    (hwritable : ∀ event ∈ e.events, event.IsWritable) (w : XmlWriter String) :
    ∃ w', Writer.replay e.events w = .ok () w' ∧ w'.stack.length = w.stack.length := by
  induction htags generalizing w with
  | @intro e htag _ ih =>
    obtain ⟨tag, attributes, text, children⟩ := e
    rw [Element.events] at hwritable ⊢
    simp only [List.cons_append, List.forall_mem_cons, List.forall_mem_append] at hwritable
    obtain ⟨-, ⟨⟨hattributes, htext⟩, hchildren⟩, -⟩ := hwritable
    obtain ⟨w₁, hopen, hstart, hlength₁⟩ := put_openElement htag w
    obtain ⟨w₂, hreplay₂, hstack₂⟩ := replay_attributes hattributes hstart
    have hlength₂ : w₂.stack.length = w.stack.length + 1 := by rw [hstack₂, hlength₁]
    obtain ⟨w₃, hreplay₃, hlength₃⟩ := replay_text htext (List.ne_nil_of_length_eq_add_one hlength₂)
    obtain ⟨w₄, hreplay₄, hlength₄⟩ := replay_eventsOf hchildren ih w₃
    obtain ⟨w₅, hclose, hlength₅⟩ := put_closeElement (w := w₄) (n := w.stack.length) (by omega)
    refine ⟨w₅, ?_, hlength₅⟩
    rw [List.cons_append, Writer.replay_cons_of_ok hopen, List.append_assoc, List.append_assoc,
      Writer.replay_append_of_ok hreplay₂, Writer.replay_append_of_ok hreplay₃, Writer.replay_append_of_ok hreplay₄]
    exact Writer.replay_cons_of_ok hclose

end XmlWriter

end GraphMarkup
