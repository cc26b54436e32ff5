import GraphMarkup.Error
import GraphMarkup.Layout

/-!
# The journal of a run

* `Request` : what a walk asks a graph for;
* `Fault` : what goes wrong while it does, is mended, and leaves a warning;
* `Entry` : what happens in a run, in the order in which it happens;
* `Entry.effect?`, `Entry.line?` : the two views of a journal: what the graph notices, and the lines of the log.
-/

namespace GraphMarkup

/-- What a graph is asked for. -/
inductive Request where
  /-- The value of a property, to be written. -/
  | property (name : String)
  /-- The value of a property, as the string form of its owner. -/
  | source (name : String)
  /-- The string form of an object. -/
  | display (typeName : String)
  /-- An enumerator of a container. -/
  | enumerator
  /-- A step of an enumerator, counted from zero. -/
  | step (index : Nat)
  deriving DecidableEq, Repr

/-- A fault that is mended where it arises. -/
inductive Fault where
  | property (name reason : String)
  | refusedEnumerator (reason : String)
  | brokenEnumerator (reason : String)
  | stringForm (reason : String)
  deriving DecidableEq, Repr

namespace Fault

def error : Fault → Error
  | property name reason => .propertyFetch name reason
  | refusedEnumerator reason | brokenEnumerator reason => .enumeration reason
  | stringForm reason => .stringConversion reason

/-- What is done about a fault. -/
def remedy : Fault → String
  | property .. => "writing it empty"
  | refusedEnumerator _ => "writing an empty container"
  | brokenEnumerator _ => "dropping remaining elements"
  | stringForm _ => "writing null instead"

def message (fault : Fault) : String := fault.error.message ++ "; " ++ fault.remedy

end Fault

/-- The fault that a failing answer to a request is. -/
def Request.fault (request : Request) (reason : String) : Fault :=
  match request with
  | property name => .property name reason
  | source _ | display _ => .stringForm reason
  | enumerator => .refusedEnumerator reason
  | step _ => .brokenEnumerator reason

/-- What happens in a run. -/
inductive Entry where
  /-- A node is visited. -/
  | visited
  /-- The graph is asked for something: `part` identifies what is computed on demand, and `failure` is the reason why
  the answer is none. -/
  | asked (request : Request) (part : Option Nat) (failure : Option String)
  /-- A stop is requested. -/
  | stopRequested
  /-- A walk notices, after a number of nodes, that a stop has been requested. -/
  | stopObserved (nodes : Nat)
  /-- A fault is mended. -/
  | mended (fault : Fault)
  | sessionStarted (layout : Layout) (depth : Nat) (typeNames : Bool)
  | itemWritten (number nodes events : Nat)
  | itemFailed (number : Nat) (error : Error)
  | sessionDone (items : Nat)
  deriving DecidableEq, Repr

/-- How much a line of the log matters. -/
inductive Level where
  | warn
  | debug
  | trace
  deriving DecidableEq, Repr

def Level.name : Level → String
  | warn => "WARN"
  | debug => "DEBUG"
  | trace => "TRACE"

/-- What is seen of a request where it is answered. -/
def Request.effect : Request → String
  | property name | source name => "get " ++ name
  | display typeName => "display " ++ typeName
  | enumerator => "enumerate"
  | step index => "next " ++ index.repr

namespace Entry

/-- What the graph notices: the requests for what is computed on demand. -/
def effect? : Entry → Option String
  | asked request (some _) _ => some request.effect
  | _ => none

def line? : Entry → Option (Level × String)
  | mended fault => some (.warn, fault.message)
  | stopObserved nodes => some (.debug, "stop requested after " ++ nodes.repr ++ " nodes")
  | sessionStarted layout depth typeNames =>
    some (.debug, "starting " ++ layout.name ++ " session, depth " ++ depth.repr ++ ", type names "
      ++ (if typeNames then "true" else "false"))
  | itemWritten number nodes events =>
    some (.trace, "item " ++ number.repr ++ " written, " ++ nodes.repr ++ " nodes, " ++ events.repr ++ " events")
  | itemFailed number error =>
    some (.debug, "item " ++ number.repr ++ " failed, poisoning session: " ++ error.message)
  | sessionDone items => some (.debug, "session done after " ++ items.repr ++ " items")
  | visited | asked .. | stopRequested => none

/-- The text of a warning, if the entry is one. -/
def warning? (entry : Entry) : Option String :=
  match entry.line? with
  | some (.warn, text) => some text
  | _ => none

end Entry

end GraphMarkup
