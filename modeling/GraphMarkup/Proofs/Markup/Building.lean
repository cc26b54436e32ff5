import GraphMarkup.Proofs.Markup.Rendering
import GraphMarkup.Proofs.Markup.Replay

/-!
# What a tree builder builds

* `TreeBuilder.Takes` : an event that a tree builder takes, and what it makes of it;
* `Event.IsPlain` : events within the vocabulary of XML;
* `TreeBuilder.Each` : a property of all elements of a builder, completed or not;
* `legible_of_replay` : plain events whose elements do not mix text with children give legible trees.
-/

namespace GraphMarkup

/-- Names are names, and character data is such as XML can carry. -/
def Event.IsPlain : Event → Prop
  | .openElement tag => IsName tag
  | .attr name value => IsName name ∧ Markup.IsXmlText value
  | .text content => Markup.IsXmlText content
  | .closeElement => True

instance : (event : Event) → Decidable event.IsPlain
  | .openElement tag => inferInstanceAs (Decidable (IsName tag))
  | .attr name value => inferInstanceAs (Decidable (IsName name ∧ Markup.IsXmlText value))
  | .text content => inferInstanceAs (Decidable (Markup.IsXmlText content))
  | .closeElement => inferInstanceAs (Decidable True)

namespace TreeBuilder

/-- What a tree builder makes of an event that it takes. -/
inductive Takes : Event → TreeBuilder → TreeBuilder → Prop where
  | openElement (tag : String) (stack roots : List Element) :
    Takes (.openElement tag) ⟨stack, roots⟩ ⟨{ tag } :: stack, roots⟩
  | attr (name value : String) (e : Element) (rest roots : List Element) (empty : e.isEmpty) :
    Takes (.attr name value) ⟨e :: rest, roots⟩
      ⟨{ e with attributes := e.attributes ++ [(name, value)] } :: rest, roots⟩
  | text (content : String) (e : Element) (rest roots : List Element) :
    Takes (.text content) ⟨e :: rest, roots⟩ ⟨{ e with text := some (e.text.getD "" ++ content) } :: rest, roots⟩
  | closeChild (e parent : Element) (rest roots : List Element) :
    Takes .closeElement ⟨e :: parent :: rest, roots⟩ ⟨{ parent with children := parent.children ++ [e] } :: rest, roots⟩
  | closeRoot (e : Element) (roots : List Element) : Takes .closeElement ⟨[e], roots⟩ ⟨[], roots ++ [e]⟩

theorem takes_of_put {event : Event} {b b' : TreeBuilder} (h : put event b = .ok () b') : Takes event b b' := by
  obtain ⟨stack, roots⟩ := b
  cases event with
  | openElement tag =>
    cases h
    exact .openElement tag stack roots
  | attr name value =>
    cases stack with
    | nil => cases h
    | cons e rest =>
      by_cases hempty : e.isEmpty
      · simp only [put, if_pos hempty] at h
        cases h
        exact .attr name value e rest roots hempty
      · simp only [put, if_neg hempty] at h
        cases h
  | text content =>
    cases stack with
    | nil => cases h
    | cons e rest =>
      cases h
      exact .text content e rest roots
  | closeElement =>
    cases stack with
    | nil => cases h
    | cons e rest =>
      cases rest with
      | nil =>
        cases h
        exact .closeRoot e roots
      | cons parent rest =>
        cases h
        exact .closeChild e parent rest roots

/-- A property of every element of a builder, completed or not, and of all elements inside it. -/
def Each (p : Element → Prop) (b : TreeBuilder) : Prop := (∀ e ∈ b.stack, e.All p) ∧ ∀ e ∈ b.roots, e.All p

variable {event : Event} {b b' : TreeBuilder}

/-- Elements that mix text with children stay as they are. -/
theorem Takes.unmixed_of_unmixed (h : Takes event b b') (hb : b'.Each Element.Unmixed) : b.Each Element.Unmixed := by
  obtain ⟨hstack, hroots⟩ := hb
  cases h with
  | openElement tag stack roots => exact ⟨fun e he => hstack e (List.mem_cons_of_mem _ he), hroots⟩
  | attr name value e rest roots empty =>
    have he := hstack _ (List.mem_cons_self ..)
    exact ⟨List.forall_mem_cons.2 ⟨.intro he.here he.inside, (List.forall_mem_cons.1 hstack).2⟩, hroots⟩
  | text content e rest roots =>
    have he := hstack _ (List.mem_cons_self ..)
    have hchildren : e.children = [] := he.here.resolve_left (by simp)
    exact ⟨List.forall_mem_cons.2 ⟨.intro (.inr hchildren) he.inside, (List.forall_mem_cons.1 hstack).2⟩, hroots⟩
  | closeChild e parent rest roots =>
    have hparent := hstack _ (List.mem_cons_self ..)
    have htext : parent.text = none := hparent.here.resolve_right (by simp)
    have hchildren := List.forall_mem_append.1 hparent.inside
    refine ⟨List.forall_mem_cons.2 ⟨hchildren.2 e (List.mem_singleton_self e), ?_⟩, hroots⟩
    exact List.forall_mem_cons.2 ⟨.intro (.inl htext) hchildren.1, (List.forall_mem_cons.1 hstack).2⟩
  | closeRoot e roots =>
    have hroots := List.forall_mem_append.1 hroots
    exact ⟨hroots.2, hroots.1⟩

/-- Plain events keep names names. -/
theorem Takes.named (h : Takes event b b') (hevent : event.IsPlain) (hb : b.Each Element.Named) :
    b'.Each Element.Named := by
  obtain ⟨hstack, hroots⟩ := hb
  cases h with
  | openElement tag stack roots =>
    exact ⟨List.forall_mem_cons.2 ⟨.intro ⟨hevent, by simp⟩ (by simp), hstack⟩, hroots⟩
  | attr name value e rest roots empty =>
    obtain ⟨he, hrest⟩ := List.forall_mem_cons.1 hstack
    refine ⟨List.forall_mem_cons.2 ⟨.intro ⟨he.here.tag, ?_⟩ he.inside, hrest⟩, hroots⟩
    exact List.forall_mem_append.2 ⟨he.here.attributes, by simpa using hevent.1⟩
  | text content e rest roots =>
    obtain ⟨he, hrest⟩ := List.forall_mem_cons.1 hstack
    exact ⟨List.forall_mem_cons.2 ⟨.intro ⟨he.here.tag, he.here.attributes⟩ he.inside, hrest⟩, hroots⟩
  | closeChild e parent rest roots =>
    obtain ⟨he, hrest⟩ := List.forall_mem_cons.1 hstack
    obtain ⟨hparent, hrest⟩ := List.forall_mem_cons.1 hrest
    refine ⟨List.forall_mem_cons.2 ⟨.intro ⟨hparent.here.tag, hparent.here.attributes⟩ ?_, hrest⟩, hroots⟩
    exact List.forall_mem_append.2 ⟨hparent.inside, by simpa using he⟩
  | closeRoot e roots =>
    exact ⟨by simp, List.forall_mem_append.2 ⟨hroots, hstack⟩⟩

/-- Elements that are unmixed in the end have been so all along. -/
theorem unmixed_of_replay {events : List Event} (h : Writer.replay events b = .ok () b')
    (hb : b'.Each Element.Unmixed) : b.Each Element.Unmixed := by
  apply Classical.byContradiction
  intro hmixed
  exact Writer.replay_invariant (P := fun b => ¬ b.Each Element.Unmixed)
    (fun _ _ _ _ hput hmixed hunmixed => hmixed ((takes_of_put hput).unmixed_of_unmixed hunmixed)) h hmixed hb

/-- Plain events that never mix text with children build legible trees. -/
theorem legible_of_replay {events : List Event} (h : Writer.replay events ({} : TreeBuilder) = .ok () b)
    (hplain : ∀ event ∈ events, event.IsPlain) (hunmixed : ∀ e ∈ b.roots, e.All Element.Unmixed) :
    ∀ e ∈ b.roots, e.All Element.Legible := by
  have hnamed : b.Each Element.Named :=
    Writer.replay_invariant (P := Each Element.Named)
      (fun event hmem _ _ hput => (takes_of_put hput).named (hplain event hmem)) h ⟨by simp, by simp⟩
  exact fun e he => (hnamed.2 e he).legible (hunmixed e he)

end TreeBuilder

end GraphMarkup
