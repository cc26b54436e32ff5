import GraphMarkup.Markup.XmlWriter
import GraphMarkup.Walk.Node

/-!
# Sessions

* `Session` : one serialization over a writer, item by item;
* `Session.create`, `Session.serialize`, `Session.finish` : its beginning, its items and its end;
* `toXml` : a list of values as one XML document.

An item reaches the writer only when it has been walked to its end. An item that fails poisons the session, which then
refuses everything.
-/

namespace GraphMarkup

/-- How far a session has come. -/
inductive Phase where
  /-- Nothing has been written yet. -/
  | atRoot
  | inDocument
  /-- An item has failed. -/
  | poisoned
  deriving DecidableEq, Repr

/-- A serialization over a writer. -/
structure Session (ω : Type) where
  writer : ω
  policy : Policy
  layout : Layout
  phase : Phase := .atRoot
  items : Nat := 0
  run : Run := {}

abbrev SessionM (ω : Type) := EStateM Error (Session ω)

namespace Session

variable {ω : Type}

def note (entry : Entry) (s : Session ω) : Session ω := { s with run := s.run.note entry }

def requestStop (s : Session ω) : Session ω := { s with run := s.run.requestStop }

/-- Begins a session, given a policy that can be used. -/
def create (writer : ω) (policy : Policy) (layout : Layout) : Except Error (Session ω) :=
  match policy.validate with
  | .error e => .error e
  | .ok () =>
    .ok (({ writer, policy, layout } : Session ω).note
      (.sessionStarted layout policy.depth policy.includeTypeNames))

def onWriter (step : EStateM Error ω Unit) : SessionM ω Unit := fun s =>
  match step s.writer with
  | .ok _ writer => .ok () { s with writer }
  | .error e writer => .error e { s with writer }

/-- Walks over an item; the answer is what the walk has recorded and the number of its nodes. -/
def walk (value : Value) : SessionM ω (Recorder × Nat) := fun s =>
  match write s.policy value none s.policy.depth { run := s.run } with
  | .ok _ w => .ok (w.recorder, w.visited) { s with run := w.run }
  | .error e w => .error e { s with run := w.run }

variable [Writer ω]

def openRoot : SessionM ω Unit := do
  let s ← get
  if s.layout = .document then onWriter (Writer.put (.openElement s.policy.names.root))
  modify fun s => { s with phase := .inDocument }

def writeItem (value : Value) : SessionM ω Unit := do
  let (recorder, nodes) ← walk value
  if (← get).phase = .atRoot then openRoot
  onWriter (Writer.replay recorder.events.toList)
  modify fun s => { s with items := s.items + 1 }
  modify fun s => s.note (.itemWritten s.items nodes recorder.events.size)

def afterFailure (e : Error) (s : Session ω) : Session ω :=
  if e.isFatal then { s.note (.itemFailed (s.items + 1) e) with phase := .poisoned } else s

/-- Writes an item, unless an earlier one has failed. -/
def serialize (value : Value) : SessionM ω Unit := fun s =>
  if s.phase = .poisoned then .error .sessionPoisoned s
  else
    match writeItem value s with
    | .ok _ s => .ok () s
    | .error e s => .error e (afterFailure e s)

/-- Ends the session: closes the root element, which is an empty one if there were no items, and flushes. -/
def finish : SessionM ω Unit := do
  match (← get).phase with
  | .poisoned => throw .sessionPoisoned
  | .atRoot => openRoot
  | .inDocument => pure ()
  if (← get).layout = .document then onWriter (Writer.put .closeElement)
  onWriter Writer.flush
  modify fun s => s.note (.sessionDone s.items)

/-- Writes items in order, up to the first that fails, and ends the session. -/
def serializeAll (values : List Value) : SessionM ω Unit := do
  values.forM serialize
  finish

end Session

def toXml (policy : Policy) (values : List Value) : Except Error String × Run :=
  match Session.create ({ out := "" } : XmlWriter String) policy .document with
  | .error e => (.error e, {})
  | .ok session =>
    match Session.serializeAll values session with
    | .ok _ s => (.ok s.writer.out, s.run)
    | .error e s => (.error e, s.run)

end GraphMarkup
