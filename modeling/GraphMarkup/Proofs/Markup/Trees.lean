import GraphMarkup.Proofs.Markup.Faithful
import GraphMarkup.Proofs.Markup.Forest

/-!
# Documents of given trees

* `TreeBuilder.add` : a builder with more elements completed where it stands;
* `TreeBuilder.replay_events` : a builder takes the events of any element, and completes it;
* `Element.Plain` : names are names, and character data is such as XML can carry;
* `isDocument_eventsOf` : plain trees that do not mix text with children are those of a document.
-/

namespace GraphMarkup

open Element (eventsOf)

namespace TreeBuilder

/-- A builder with more completed elements: children of the innermost open one, or roots if none is open. -/
def add (b : TreeBuilder) (es : List Element) : TreeBuilder :=
  match b with
  | ⟨[], roots⟩ => ⟨[], roots ++ es⟩
  | ⟨parent :: rest, roots⟩ => ⟨{ parent with children := parent.children ++ es } :: rest, roots⟩

theorem add_nil (b : TreeBuilder) : b.add [] = b := by
  obtain ⟨stack, roots⟩ := b
  cases stack with
  | nil => simp [add]
  | cons parent rest =>
    obtain ⟨tag, attributes, text, children⟩ := parent
    simp [add]

theorem add_add (b : TreeBuilder) (es fs : List Element) : (b.add es).add fs = b.add (es ++ fs) := by
  obtain ⟨stack, roots⟩ := b
  cases stack <;> simp [add]

theorem put_closeElement (e : Element) (stack roots : List Element) :
    put .closeElement ⟨e :: stack, roots⟩ = .ok () (add ⟨stack, roots⟩ [e]) := by
  cases stack <;> rfl

theorem replay_attributes (tag : String) (before as : List (String × String)) (rest roots : List Element) :
    Writer.replay (attrEvents as) (⟨{ tag, attributes := before } :: rest, roots⟩ : TreeBuilder) =
      .ok () ⟨{ tag, attributes := before ++ as } :: rest, roots⟩ := by
  induction as generalizing before with
  | nil => simp [pure, EStateM.pure]
  | cons a as ih =>
    have hput : put (.attr a.1 a.2) ⟨{ tag, attributes := before } :: rest, roots⟩ =
        .ok () ⟨{ tag, attributes := before ++ [a] } :: rest, roots⟩ := rfl
    refine (Writer.replay_cons_of_ok hput).trans ?_
    rw [ih, List.append_assoc, List.singleton_append]

theorem replay_text (tag : String) (attributes : List (String × String)) (text : Option String)
    (rest roots : List Element) :
    Writer.replay (textEvents text) (⟨{ tag, attributes } :: rest, roots⟩ : TreeBuilder) =
      .ok () ⟨{ tag, attributes, text } :: rest, roots⟩ := by
  cases text with
  | none => rfl
  | some text =>
    have hput : put (.text text) ⟨{ tag, attributes } :: rest, roots⟩ =
        .ok () ⟨{ tag, attributes, text := some ("" ++ text) } :: rest, roots⟩ := rfl
    rw [String.empty_append] at hput
    exact Writer.replay_cons_of_ok hput

theorem replay_eventsOf_of_forall {es : List Element}
    (h : ∀ e ∈ es, ∀ b : TreeBuilder, Writer.replay e.events b = .ok () (b.add [e])) (b : TreeBuilder) :
    Writer.replay (eventsOf es) b = .ok () (b.add es) := by
  induction es generalizing b with
  | nil =>
    rw [add_nil]
    rfl
  | cons e es ih =>
    obtain ⟨he, hes⟩ := List.forall_mem_cons.1 h
    rw [eventsOf, Writer.replay_append_of_ok (he b), ih hes, add_add, List.singleton_append]

/-- A tree builder takes the events of any element, wherever it stands, and completes it. -/
theorem replay_events (e : Element) (b : TreeBuilder) : Writer.replay e.events b = .ok () (b.add [e]) := by
  induction e using Element.induct generalizing b with
  | step e ih =>
    obtain ⟨tag, attributes, text, children⟩ := e
    obtain ⟨stack, roots⟩ := b
    have hopen : put (.openElement tag) ⟨stack, roots⟩ = .ok () ⟨{ tag } :: stack, roots⟩ := rfl
    -- The element is at the top of the stack until its end moves it to where the builder stood.
    rw [Element.events, List.cons_append, Writer.replay_cons_of_ok hopen, List.append_assoc, List.append_assoc,
      Writer.replay_append_of_ok (replay_attributes tag [] attributes stack roots), List.nil_append,
      Writer.replay_append_of_ok (replay_text tag attributes text stack roots),
      Writer.replay_append_of_ok (replay_eventsOf_of_forall ih _)]
    exact Writer.replay_cons_of_ok (put_closeElement ⟨tag, attributes, text, children⟩ stack roots)

theorem replay_eventsOf (es : List Element) (b : TreeBuilder) : Writer.replay (eventsOf es) b = .ok () (b.add es) :=
  replay_eventsOf_of_forall (fun e _ => replay_events e) b

end TreeBuilder

/-! ## Plain trees -/

/-- Names are names, and character data is such as XML can carry. -/
structure Element.Plain (e : Element) : Prop where
  tag : IsName e.tag
  attributes : ∀ a ∈ e.attributes, IsName a.1 ∧ Markup.IsXmlText a.2
  text : ∀ text ∈ e.text, Markup.IsXmlText text

namespace Element

variable {e : Element} {es : List Element}

theorem forall_mem_eventsOf {P : Event → Prop} (h : ∀ e ∈ es, ∀ event ∈ e.events, P event) :
    ∀ event ∈ eventsOf es, P event := by
  induction es with
  | nil => exact List.forall_mem_nil _
  | cons e es ih =>
    obtain ⟨he, hes⟩ := List.forall_mem_cons.1 h
    exact List.forall_mem_append.2 ⟨he, ih hes⟩

/-- What holds of the tags, attributes and texts of an element and of all inside it holds of its events. -/
theorem All.forall_mem_events {p : Element → Prop} {P : Event → Prop} (h : e.All p)
    (hopen : ∀ e, p e → P (.openElement e.tag)) (hattr : ∀ e, p e → ∀ a ∈ e.attributes, P (.attr a.1 a.2))
    (htext : ∀ e, p e → ∀ content ∈ e.text, P (.text content)) (hclose : P .closeElement) :
    ∀ event ∈ e.events, P event := by
  induction h with
  | @intro e here _ ih =>
    have hattributes : ∀ event ∈ attrEvents e.attributes, P event := by
      intro event hevent
      obtain ⟨a, ha, rfl⟩ := List.mem_map.1 hevent
      exact hattr e here a ha
    have hcontent : ∀ event ∈ textEvents e.text, P event := by
      intro event hevent
      obtain ⟨content, hcontent, rfl⟩ := Option.map_eq_some_iff.1 (Option.mem_toList.1 hevent)
      exact htext e here content hcontent
    have hstart := hopen e here
    obtain ⟨tag, attributes, text, children⟩ := e
    rw [Element.events, List.cons_append]
    refine List.forall_mem_cons.2 ⟨hstart, List.forall_mem_append.2 ⟨?_, List.forall_mem_singleton.2 hclose⟩⟩
    exact List.forall_mem_append.2 ⟨List.forall_mem_append.2 ⟨hattributes, hcontent⟩, forall_mem_eventsOf ih⟩

/-- The events of a plain tree are plain. -/
theorem All.isPlain_of_mem_events (h : e.All Plain) : ∀ event ∈ e.events, event.IsPlain :=
  h.forall_mem_events (fun _ he => he.tag) (fun _ he => he.attributes) (fun _ he => he.text) trivial

/-- The events of an element without empty tags open none. -/
theorem All.tag_ne_empty_of_mem_events (h : e.All fun e => e.tag ≠ "") :
    ∀ tag, .openElement tag ∈ e.events → tag ≠ "" := by
  intro tag htag
  refine h.forall_mem_events (P := fun event => ∀ tag, event = .openElement tag → tag ≠ "") ?_ nofun nofun nofun _ htag
    tag rfl
  rintro e he _ ⟨⟩
  exact he

end Element

/-- Plain trees that do not mix text with children are those of a document. -/
theorem isDocument_eventsOf {es : List Element} (hplain : ∀ e ∈ es, e.All Element.Plain)
    (hunmixed : ∀ e ∈ es, e.All Element.Unmixed) : IsDocument (eventsOf es) es :=
  ⟨⟨_, TreeBuilder.replay_eventsOf es {}, rfl⟩,
    Element.forall_mem_eventsOf fun e he => (hplain e he).isPlain_of_mem_events, hunmixed⟩

end GraphMarkup
