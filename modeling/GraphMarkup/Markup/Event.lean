import GraphMarkup.Error

/-!
# Markup events and their writers

* `Event` : one step in writing nested elements;
* `Writer` : what takes events one by one, each of which it may refuse, and is flushed at the end;
* `Writer.replay` : a list of events put into a writer, up to the first one that it refuses.

A writer that refuses an event goes on living: its state after the refusal is part of the answer.
-/

namespace GraphMarkup

/-- One step in writing nested elements. -/
inductive Event where
  | openElement (tag : String)
  | attr (name value : String)
  | text (content : String)
  | closeElement
  deriving DecidableEq, Repr

/-- What takes events. Opens and closes balance, and attributes follow an open, before any text or child. -/
class Writer (ω : Type) where
  put : Event → EStateM Error ω Unit
  flush : EStateM Error ω Unit

namespace Writer

variable {ω : Type} [Writer ω]

/-- Puts events into a writer in order, up to the first one that it refuses. -/
def replay (events : List Event) : EStateM Error ω Unit := events.forM put

@[simp] theorem replay_nil : (replay [] : EStateM Error ω Unit) = pure () := rfl

theorem replay_cons (event : Event) (events : List Event) :
    (replay (event :: events) : EStateM Error ω Unit) = (do put event; replay events) := rfl

theorem replay_append (events later : List Event) :
    (replay (events ++ later) : EStateM Error ω Unit) = (do replay events; replay later) := by
  induction events with
  | nil => rfl
  | cons event events ih =>
    rw [List.cons_append, replay_cons, replay_cons, ih]
    funext w
    simp only [bind, EStateM.bind]
    cases put event w <;> rfl

end Writer

end GraphMarkup
