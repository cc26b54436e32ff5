import GraphMarkup.Proofs.Graph.Related
import GraphMarkup.Proofs.Session.Contents

/-!
# Whole documents

* `Value.Becomes` : a value whose element the walk gives in every run in which no stop has been requested;
* `Walks.of_becomes` : such values, one after another, give their elements;
* `BecomeDocument` : values whose elements the walk gives, and that XML can carry;
* `BecomeDocument.toXml_eq` : their document is the markup of their elements inside the root;
* `BecomeDocument.elements_eq` : it tells the elements.
-/

namespace GraphMarkup

open Element (eventsOf)

variable {policy : Policy} {values : List Value} {es : List Element} {run : Run}

/-- A value whose element the walk over an item gives in every run in which no stop has been requested. No stop is
requested on the way. -/
def Value.Becomes (policy : Policy) (value : Value) (e : Element) : Prop :=
  ∀ run : Run, run.stopped = false →
    ∃ w, grow policy value none policy.depth { run } = .ok e w ∧ w.run.stopped = false

/-- Values whose elements the walk gives, one after another. -/
theorem Walks.of_becomes (h : List.Forall₂ (Value.Becomes policy) values es) (hrunning : run.stopped = false) :
    ∃ run', Walks policy run values es run' ∧ run'.stopped = false := by
  induction h generalizing run with
  | nil => exact ⟨run, .nil run, hrunning⟩
  | cons hvalue _ ih =>
    obtain ⟨w, hgrow, hrunning'⟩ := hvalue run hrunning
    obtain ⟨run', hwalks, hstopped⟩ := ih hrunning'
    exact ⟨run', .cons hgrow hwalks, hstopped⟩

/-! ## Documents as XML text -/

/-- What the walk gives does not mix text with children. -/
theorem Value.Becomes.unmixed {value : Value} {e : Element} (h : value.Becomes policy e) : e.All Element.Unmixed := by
  obtain ⟨w, hgrow, -⟩ := h {} rfl
  exact ((grow_yields_proper policy value none policy.depth).of_ok hgrow).mono fun _ hproper => hproper.unmixed

/-- Values whose elements the walk gives, and that XML can carry, inside a root whose name is one. -/
structure BecomeDocument (policy : Policy) (values : List Value) (es : List Element) : Prop where
  valid : policy.validate = .ok ()
  root : IsName policy.names.root
  items : List.Forall₂ (Value.Becomes policy) values es
  plain : ∀ e ∈ es, e.All Element.Plain

namespace BecomeDocument

theorem isDocument (h : BecomeDocument policy values es) :
    IsDocument (Element.events { tag := policy.names.root, children := es })
      [{ tag := policy.names.root, children := es }] := by
  have hunmixed : ∀ e ∈ es, e.All Element.Unmixed := by
    intro e he
    obtain ⟨value, -, hvalue⟩ := exists_of_mem_forall₂ h.items he
    exact hvalue.unmixed
  rw [← Element.eventsOf_singleton]
  refine isDocument_eventsOf (List.forall_mem_singleton.2 (.intro ?_ h.plain))
    (List.forall_mem_singleton.2 (.intro (.inl rfl) hunmixed))
  exact ⟨h.root, List.forall_mem_nil _, nofun⟩

/-- The document is the markup of the elements inside the root. -/
theorem toXml_eq (h : BecomeDocument policy values es) :
    ∃ xml, (toXml policy values).1 = .ok xml ∧
      xml.toList = Element.markups none 0 [{ tag := policy.names.root, children := es }] := by
  obtain ⟨run, hwalks, -⟩ := Walks.of_becomes h.items (show ({} : Run).stopped = false from rfl)
  have hnone : firstForbidden? (eventsOf es) = none := by
    refine firstForbidden?_eq_none_iff.2 (Element.forall_mem_eventsOf fun e he event hevent => ?_)
    exact ((h.plain e he).isPlain_of_mem_events event hevent).isWritable
  rcases toXml_of_walks h.valid hwalks with ⟨-, xml, hxml, hmarkups⟩ | ⟨c, hsome, -⟩
  · exact ⟨xml, hxml, hmarkups⟩
  · cases hnone.symm.trans hsome

/-- The elements inside the root are known from the document. -/
theorem elements_eq {policy' : Policy} {values' : List Value} {es' : List Element} {xml : String}
    (h : BecomeDocument policy values es) (h' : BecomeDocument policy' values' es')
    (hxml : (toXml policy values).1 = .ok xml) (hxml' : (toXml policy' values').1 = .ok xml) : es = es' := by
  obtain ⟨text, htext, hmarkups⟩ := h.toXml_eq
  obtain ⟨text', htext', hmarkups'⟩ := h'.toXml_eq
  obtain rfl : xml = text := Except.ok.inj (hxml.symm.trans htext)
  obtain rfl : xml = text' := Except.ok.inj (hxml'.symm.trans htext')
  have hforest := Element.markups_injective h.isDocument.legible h'.isDocument.legible (hmarkups.symm.trans hmarkups')
  exact congrArg Element.children (List.singleton_inj.1 hforest)

end BecomeDocument

end GraphMarkup
