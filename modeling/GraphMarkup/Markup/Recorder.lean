import GraphMarkup.Markup.Event

/-!
# Recording events

* `Recorder` : the events taken so far, the number of open elements and the largest it has been;
* `Recorder.put` : takes an event unless it is out of place, in which case nothing changes;
* `Recorder.clear` : forgets all events.
-/

namespace GraphMarkup

/-- Events kept for later. -/
structure Recorder where
  events : Array Event := #[]
  depth : Nat := 0
  maxDepth : Nat := 0
  deriving DecidableEq, Repr

namespace Recorder

def isBalanced (r : Recorder) : Bool := r.depth == 0

/-- Whether the last event leaves room for an attribute. -/
def inStartTag (r : Recorder) : Bool :=
  match r.events.back? with
  | some (.openElement _) | some (.attr _ _) => true
  | _ => false

def put (event : Event) : EStateM Error Recorder Unit := fun r =>
  match event with
  | .openElement _ =>
    .ok () { events := r.events.push event, depth := r.depth + 1, maxDepth := max r.maxDepth (r.depth + 1) }
  | .attr name _ =>
    if r.inStartTag then .ok () { r with events := r.events.push event }
    else .error (.writer (.strayAttribute name)) r
  | .text _ =>
    if r.depth = 0 then .error (.writer .strayText) r
    else .ok () { r with events := r.events.push event }
  | .closeElement =>
    if r.depth = 0 then .error (.writer .strayClose) r
    else .ok () { r with events := r.events.push event, depth := r.depth - 1 }

/-- Forgets all events, so that the recorder can be used again. -/
def clear (r : Recorder) : Recorder := { r with events := #[], depth := 0, maxDepth := 0 }

instance : Writer Recorder where
  put := put
  flush := pure ()

end Recorder

end GraphMarkup
