import GraphMarkup.Markup.XmlWriter
import GraphMarkup.Proofs.State

/-!
# Properties of the steps of XML writers

* `XmlWriter.Pieced` : a property of steps that goes from handing a piece of text to the output to what is made of such
  steps, as long as nothing else looks at the output or changes it;
* `Pieced.put`, `Pieced.declaration` : so it holds of writing an event, and of writing the declaration.

The events are gone through once, here. What is left to say of a property is how it fares with one piece of text.
-/

namespace GraphMarkup.XmlWriter

variable {ο : Type}

theorem ite_of_both {Step : {α : Type} → EStateM Error (XmlWriter ο) α → Prop} {α : Type} {c : Prop} [Decidable c]
    {step step' : EStateM Error (XmlWriter ο) α} (h : Step step) (h' : Step step') : Step (if c then step else step') := by
  split
  · exact h
  · exact h'

/-- A change that does not depend on the output and goes along with any other output leaves the output alone. -/
theorem out_eq_of_change {f : XmlWriter ο → XmlWriter ο} (hf : ∀ w out, f { w with out } = { f w with out })
    (w : XmlWriter ο) : (f w).out = w.out := by
  have hout := congrArg XmlWriter.out (hf w w.out)
  exact hout

variable [Output ο]

theorem emit_of_ok {piece : String} {w : XmlWriter ο} {out : ο} (h : Output.write piece w.out = .ok () out) :
    emit piece w = .ok () { w with out } := by
  simp only [emit, h]

theorem emit_of_error {piece : String} {w : XmlWriter ο} {e : Error} {out : ο}
    (h : Output.write piece w.out = .error e out) : emit piece w = .error e { w with out } := by
  simp only [emit, h]

/-- A property of steps that goes from the pieces that they hand to the output to what is made of them. -/
structure Pieced (Step : {α : Type} → EStateM Error (XmlWriter ο) α → Prop) : Prop where
  pure : ∀ {α : Type} (a : α), Step (pure a)
  throw : ∀ {α : Type} (fault : WriterFault), Step (throw (.writer fault) : EStateM Error (XmlWriter ο) α)
  bind : ∀ {α β : Type} {step : EStateM Error (XmlWriter ο) α} {k : α → EStateM Error (XmlWriter ο) β},
    Step step → (∀ a, Step (k a)) → Step (step >>= k)
  /-- The rest does not depend on the output. -/
  look : ∀ {α : Type} {k : XmlWriter ο → EStateM Error (XmlWriter ο) α},
    (∀ w out, k { w with out } = k w) → (∀ w, Step (k w)) → Step (get >>= k)
  /-- The change does not depend on the output and leaves it alone. -/
  change : ∀ {f : XmlWriter ο → XmlWriter ο}, (∀ w out, f { w with out } = { f w with out }) → Step (modify f)
  emit : ∀ piece, Step (emit piece)

namespace Pieced

variable {Step : {α : Type} → EStateM Error (XmlWriter ο) α → Prop} (pieced : Pieced Step)

include pieced

theorem finishStartTag : Step (finishStartTag (ο := ο)) :=
  pieced.look (fun _ _ => rfl) fun _ =>
    ite_of_both (pieced.bind (pieced.emit ">") fun _ => pieced.change fun _ _ => rfl) (pieced.pure ())

theorem spaces (n : Nat) : Step (spaces (ο := ο) n) := by
  induction n with
  | zero => exact pieced.pure ()
  | succ n ih => exact pieced.bind (pieced.emit " ") fun _ => ih

theorem newline (level : Nat) : Step (newline (ο := ο) level) := by
  refine pieced.look (fun _ _ => rfl) fun w => ?_
  cases w.indent with
  | none => exact pieced.pure ()
  | some width =>
    exact pieced.look (fun _ _ => rfl) fun w =>
      ite_of_both (pieced.bind (pieced.emit "\n") fun _ => pieced.spaces _) (pieced.spaces _)

theorem escaped (place : Markup.Place) (content : String) : Step (escaped (ο := ο) place content) := by
  unfold XmlWriter.escaped
  split
  · exact pieced.pure _
  · exact pieced.throw _

theorem openElement (tag : String) : Step (openElement (ο := ο) tag) := by
  have hnote : ∀ (w : XmlWriter ο) (out : ο), noteChild { w with out } = { noteChild w with out } := by
    rintro ⟨_, _ | ⟨e, rest⟩, startTagOpen, indent, written⟩ out <;> rfl
  have hrest : Step (do
      XmlWriter.finishStartTag
      modify noteChild
      XmlWriter.newline (← get).stack.length
      XmlWriter.emit ("<" ++ tag)
      modify fun w => { w with stack := { tag } :: w.stack, startTagOpen := true, written := true } :
        EStateM Error (XmlWriter ο) Unit) :=
    pieced.bind pieced.finishStartTag fun _ => pieced.bind (pieced.change hnote) fun _ =>
      pieced.look (fun _ _ => rfl) fun _ => pieced.bind (pieced.newline _) fun _ => pieced.bind (pieced.emit _) fun _ =>
        pieced.change fun _ _ => rfl
  exact ite_of_both (pieced.bind (pieced.throw _) fun _ => hrest) hrest

theorem attr (name value : String) : Step (attr (ο := ο) name value) := by
  have hvalue : Step (XmlWriter.escaped .attrValue value >>= fun value =>
      XmlWriter.emit (" " ++ name ++ "=\"" ++ value ++ "\"") : EStateM Error (XmlWriter ο) Unit) :=
    pieced.bind (pieced.escaped _ _) fun _ => pieced.emit _
  exact pieced.look (fun _ _ => rfl) fun w => ite_of_both (pieced.bind (pieced.throw _) fun _ => hvalue) hvalue

theorem text (content : String) : Step (text (ο := ο) content) := by
  refine pieced.look (fun _ _ => rfl) fun w => ?_
  split
  · exact pieced.throw _
  · exact pieced.bind (pieced.escaped _ _) fun _ => pieced.bind (pieced.change fun _ _ => rfl) fun _ =>
      pieced.bind pieced.finishStartTag fun _ => pieced.emit _

theorem closeElement : Step (closeElement (ο := ο)) := by
  refine pieced.look (fun _ _ => rfl) fun w => ?_
  split
  · exact pieced.throw _
  · exact pieced.bind (pieced.change fun _ _ => rfl) fun _ => pieced.look (fun _ _ => rfl) fun _ =>
      ite_of_both (pieced.bind (pieced.emit _) fun _ => pieced.change fun _ _ => rfl)
        (ite_of_both (pieced.bind (pieced.newline _) fun _ => pieced.emit _) (pieced.emit _))

/-- The property holds of writing any event. -/
theorem put (event : Event) : Step (put (ο := ο) event) := by
  cases event with
  | openElement tag => exact pieced.openElement tag
  | attr name value => exact pieced.attr name value
  | text content => exact pieced.text content
  | closeElement => exact pieced.closeElement

/-- The property holds of writing the declaration. -/
theorem declaration : Step (declaration (ο := ο)) := by
  have hrest : Step (do
      XmlWriter.emit "<?xml version=\"1.0\" encoding=\"utf-8\"?>"
      modify fun w => { w with written := true } : EStateM Error (XmlWriter ο) Unit) :=
    pieced.bind (pieced.emit _) fun _ => pieced.change fun _ _ => rfl
  exact pieced.look (fun _ _ => rfl) fun w => ite_of_both (pieced.bind (pieced.throw _) fun _ => hrest) hrest

end Pieced

end GraphMarkup.XmlWriter
