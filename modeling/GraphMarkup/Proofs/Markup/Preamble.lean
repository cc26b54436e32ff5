import GraphMarkup.Proofs.Markup.Emission
import GraphMarkup.Proofs.Markup.Replay

/-!
# XML text behind other text

* `Follows` : a step that does the same from states that a map gives as from those that it is given;
* `XmlWriter.behind` : a writer with text in front of what it has written;
* `XmlWriter.follows_put`, `XmlWriter.follows_replay` : without indentation, what is in front makes no difference.

Only a line break at the very beginning would tell whether anything has been written yet.
-/

namespace GraphMarkup

/-! ## Steps that follow each other -/

section

variable {ε σ α β : Type} {kept : σ → Prop} {f : σ → σ}

/-- A step that does the same from a state and from the state that a map gives for it, and leaves states of a kind in
the kind. -/
def Follows (kept : σ → Prop) (f : σ → σ) (step : EStateM ε σ α) : Prop :=
  ∀ s, kept s → step (f s) = mapState f (step s) ∧ kept (endState (step s))

namespace Follows

theorem bind {step : EStateM ε σ α} {k : α → EStateM ε σ β} (h : Follows kept f step)
    (hk : ∀ a, Follows kept f (k a)) : Follows kept f (step >>= k) := by
  intro s hs
  obtain ⟨hmap, hkept⟩ := h s hs
  cases hstep : step s with
  | ok a s' =>
    rw [hstep] at hmap hkept
    rw [bind_of_ok hmap, bind_of_ok hstep]
    exact hk a s' hkept
  | error e s' =>
    rw [hstep] at hmap hkept
    rw [bind_of_error hmap, bind_of_error hstep]
    exact ⟨rfl, hkept⟩

/-- A look at the state, of which the rest uses nothing that the map changes. -/
theorem get {k : σ → EStateM ε σ β} (hsame : ∀ s, k (f s) = k s) (hk : ∀ s, Follows kept f (k s)) :
    Follows kept f (MonadState.get >>= k) := by
  intro s hs
  rw [get_bind, get_bind, hsame]
  exact hk s s hs

theorem modify {g : σ → σ} (hmap : ∀ s, g (f s) = f (g s)) (hkept : ∀ s, kept s → kept (g s)) :
    Follows kept f (modify g : EStateM ε σ Unit) :=
  fun s hs => ⟨congrArg (EStateM.Result.ok ()) (hmap s), hkept s hs⟩

theorem ite {c : Prop} [Decidable c] {step step' : EStateM ε σ α} (h : Follows kept f step)
    (h' : Follows kept f step') : Follows kept f (if c then step else step') := by
  split
  · exact h
  · exact h'

theorem forM {body : α → EStateM ε σ Unit} (h : ∀ a, Follows kept f (body a)) (as : List α) :
    Follows kept f (as.forM body) := by
  induction as with
  | nil => exact fun _ hs => ⟨rfl, hs⟩
  | cons a as ih => exact (h a).bind fun _ => ih

end Follows

end

/-! ## Writers -/

namespace XmlWriter

def behind (front : String) (w : XmlWriter String) : XmlWriter String :=
  { w with out := front ++ w.out, written := true }

def Compact (w : XmlWriter String) : Prop := w.indent = none

variable {w : XmlWriter String}

theorem Compact.breakAt_eq (h : w.Compact) (level : Nat) : w.breakAt level = "" := by
  rw [breakAt, h]

theorem endOf_behind (h : w.Compact) (front : String) (e : OpenElement) (level : Nat) :
    (w.behind front).endOf e level = w.endOf e level := by
  have hbehind : (w.behind front).Compact := h
  rw [endOf, endOf, hbehind.breakAt_eq, h.breakAt_eq]
  rfl

theorem tagEnd_behind (front : String) (w : XmlWriter String) : (w.behind front).tagEnd = w.tagEnd := rfl

theorem stack_noteChild_behind (front : String) (w : XmlWriter String) :
    (w.behind front).noteChild.stack = w.noteChild.stack := by
  obtain ⟨out, stack, startTagOpen, indent, written⟩ := w
  cases stack <;> rfl

section

variable (front : String)

theorem follows_openElement (tag : String) : Follows Compact (behind front) (openElement tag) := by
  intro w hw
  by_cases htag : tag = ""
  · subst htag
    exact ⟨rfl, hw⟩
  · have hbehind : (w.behind front).Compact := hw
    rw [openElement_eq htag, openElement_eq htag, hw.breakAt_eq, hbehind.breakAt_eq, stack_noteChild_behind, tagEnd_behind]
    exact ⟨by simp [mapState, behind, String.append_assoc], hw⟩

theorem follows_attr (name value : String) : Follows Compact (behind front) (attr name value) := by
  intro w hw
  cases hopen : w.startTagOpen with
  | false =>
    rw [attr_eq_stray hopen, attr_eq_stray (w := w.behind front) hopen]
    exact ⟨rfl, hw⟩
  | true =>
    cases hescape : Markup.escape .attrValue value with
    | error fault =>
      rw [attr_eq_error hopen hescape, attr_eq_error (w := w.behind front) hopen hescape]
      exact ⟨rfl, hw⟩
    | ok escaped =>
      rw [attr_eq hopen hescape, attr_eq (w := w.behind front) hopen hescape]
      exact ⟨by simp [mapState, behind, String.append_assoc], hw⟩

theorem follows_text (content : String) : Follows Compact (behind front) (text content) := by
  intro w hw
  cases hstack : w.stack with
  | nil =>
    rw [text_eq_stray hstack, text_eq_stray (w := w.behind front) hstack]
    exact ⟨rfl, hw⟩
  | cons e rest =>
    cases hescape : Markup.escape .content content with
    | error fault =>
      rw [text_eq_error hstack hescape, text_eq_error (w := w.behind front) hstack hescape]
      exact ⟨rfl, hw⟩
    | ok escaped =>
      rw [text_eq hstack hescape, text_eq (w := w.behind front) hstack hescape, tagEnd_behind]
      exact ⟨by simp [mapState, behind, String.append_assoc], hw⟩

theorem follows_closeElement : Follows Compact (behind front) closeElement := by
  intro w hw
  cases hstack : w.stack with
  | nil =>
    rw [closeElement_eq_stray hstack, closeElement_eq_stray (w := w.behind front) hstack]
    exact ⟨rfl, hw⟩
  | cons e rest =>
    rw [closeElement_eq hstack, closeElement_eq (w := w.behind front) hstack, endOf_behind hw]
    exact ⟨by simp [mapState, behind, String.append_assoc], hw⟩

/-- What is in front of the text of an event makes no difference to it. -/
theorem follows_put (event : Event) :
    Follows Compact (behind front) (Writer.put event : EStateM Error (XmlWriter String) Unit) := by
  cases event with
  | openElement tag => exact follows_openElement front tag
  | attr name value => exact follows_attr front name value
  | text content => exact follows_text front content
  | closeElement => exact follows_closeElement front

theorem follows_replay (events : List Event) :
    Follows Compact (behind front) (Writer.replay events : EStateM Error (XmlWriter String) Unit) :=
  .forM (follows_put front) events

theorem follows_flush : Follows Compact (behind front) (Writer.flush : EStateM Error (XmlWriter String) Unit) :=
  fun _ hw => ⟨rfl, hw⟩

end

end XmlWriter

end GraphMarkup
