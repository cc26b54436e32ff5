import GraphMarkup.Markup.Recorder
import GraphMarkup.Strategy
import GraphMarkup.Walk.Run

/-!
# The state of a walk

* `Walker`, `WalkM` : what a walk over one top-level item keeps, and a computation that may end in an error;
* `WalkM.put`, `WalkM.onRun`, `WalkM.poll` : the steps of which a walk is made;
* `WalkM.poll_of_running`, `WalkM.poll_of_stopped` : a poll goes on, or ends the walk;
* `forEachItem` : goes through the items of a container, up to the first fault of the enumerator.

The events of an item are recorded first and reach a writer only when the walk is over.
-/

namespace GraphMarkup

/-- What a walk over one top-level item keeps: the events so far, the run it belongs to, whether the first unnamed
element with the tag of items is still to come, whether a chain of decorators may still be written as one element, and
the number of nodes visited. -/
structure Walker where
  recorder : Recorder := {}
  run : Run := {}
  itemTagDue : Bool := true
  promotionDue : Bool := true
  visited : Nat := 0

abbrev WalkM := EStateM Error Walker

namespace WalkM

def put (event : Event) : WalkM Unit := fun w =>
  match Recorder.put event w.recorder with
  | .ok _ recorder => .ok () { w with recorder }
  | .error e recorder => .error e { w with recorder }

def onRun {α : Type} (step : StateM Run α) : WalkM α := fun w =>
  let (a, run) := step w.run
  .ok a { w with run }

theorem onRun_bind {α β : Type} (step : StateM Run α) (k : α → WalkM β) (w : Walker) :
    (onRun step >>= k) w = k (step w.run).1 { w with run := (step w.run).2 } := rfl

def note (entry : Entry) : WalkM Unit := onRun (modify (Run.note entry))

/-- Ends the walk if a stop has been requested. -/
def poll : WalkM Unit := do
  let w ← get
  if w.run.stopped then
    note (.stopObserved w.visited)
    throw .cancelled

theorem poll_of_running {w : Walker} (h : ¬ w.run.stopped) : poll w = .ok () w := by
  show (if w.run.stopped then _ else _ : WalkM Unit) w = _
  rw [if_neg h]
  rfl

theorem poll_of_stopped {w : Walker} (h : w.run.stopped) :
    poll w = .error .cancelled { w with run := w.run.note (.stopObserved w.visited) } := by
  show (if w.run.stopped then _ else _ : WalkM Unit) w = _
  rw [if_pos h]
  rfl

/-- A poll that goes on changes nothing. -/
theorem poll_eq_of_ok {w w' : Walker} (h : poll w = .ok () w') : w' = w := by
  by_cases hstopped : w.run.stopped
  · rw [poll_of_stopped hstopped] at h
    cases h
  · rw [poll_of_running hstopped] at h
    cases h
    rfl

def visit : WalkM Unit := do
  modify fun w => { w with visited := w.visited + 1 }
  note .visited

end WalkM

/-- Asks an enumerator for its steps and passes the items on. The first failing step is a fault that ends it; with none
left, a stop may be requested. -/
def forEachStep {α : Type} (id : Nat) (endStops : Bool) (body : α → WalkM Unit) : Nat → List (Step α) → WalkM Unit
  | _, [] => WalkM.onRun (modify (Run.stopIf endStops))
  | index, step :: steps => do
    WalkM.onRun (modify fun run =>
      (run.ask (.step index) (some id) (failure? step.outcome)).stopIf step.stops)
    match step.outcome with
    | .ok item =>
      body item
      forEachStep id endStops body (index + 1) steps
    | .error reason => WalkM.note (.mended (.brokenEnumerator reason))

/-- Passes on the items of a container. An enumerator that cannot be created is a fault, and there are no items. -/
def forEachItem {α : Type} (items : Sequence α) (body : α → WalkM Unit) : WalkM Unit :=
  match items with
  | .ready items => items.forM body
  | .deferred enumerator => do
    match ← WalkM.onRun ((Fetch.deferred enumerator).read .enumerator) with
    | .ok enumeration => forEachStep enumerator.id enumeration.endStops body 0 enumeration.steps
    | .error reason => WalkM.note (.mended (.refusedEnumerator reason))

end GraphMarkup
