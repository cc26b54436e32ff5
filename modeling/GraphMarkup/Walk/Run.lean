import GraphMarkup.Graph.Fetch
import GraphMarkup.Journal

/-!
# Runs over a graph

* `Run` : how often each getter has been read, whether a stop has been requested, and the journal;
* `Run.note`, `Run.requestStop`, `Run.ask` : the three ways in which a run goes on;
* `Fetch.read` : reads a part of a graph.
-/

namespace GraphMarkup

/-- What lasts for a whole run over a graph: the number of reads of every getter, by its identity, whether a stop has
been requested, and what has happened. -/
structure Run where
  reads : Nat → Nat := fun _ => 0
  stopped : Bool := false
  journal : Array Entry := #[]

instance : Inhabited Run := ⟨{}⟩

namespace Run

def note (entry : Entry) (run : Run) : Run := { run with journal := run.journal.push entry }

/-- Requests a stop, which stays requested. -/
def requestStop (run : Run) : Run := { run with stopped := true }.note .stopRequested

def countRead (id : Nat) (run : Run) : Run :=
  { run with reads := fun i => if i = id then run.reads i + 1 else run.reads i }

/-- Notes a request and the reason why its answer is none, if that is so. -/
def ask (request : Request) (part : Option Nat) (failure : Option String) (run : Run) : Run :=
  run.note (.asked request part failure)

/-- Requests a stop if what was asked for does. -/
def stopIf (stops : Bool) (run : Run) : Run := if stops then run.requestStop else run

end Run

def failure? {α : Type} : Except String α → Option String
  | .ok _ => none
  | .error reason => some reason

/-- Reads a part of a graph. What is not at hand is computed, and may request a stop while it is. -/
def Fetch.read {α : Type} (request : Request) : Fetch α → StateM Run (Except String α)
  | ready value => fun run => (.ok value, run.ask request none none)
  | failed reason => fun run => (.error reason, run.ask request none (some reason))
  | deferred getter => fun run =>
    let read := run.reads getter.id + 1
    let answer := getter.answer read
    (answer, ((run.countRead getter.id).ask request (some getter.id) (failure? answer)).stopIf
      (getter.stopsOn == some read))

theorem Fetch.read_deferred {α : Type} (getter : Getter α) (request : Request) (run : Run) :
    ((deferred getter).read request run).1 = getter.answer (run.reads getter.id + 1) := rfl

end GraphMarkup
