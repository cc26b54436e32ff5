/-!
# Parts of a graph that are read on demand

* `Getter` : an identified part that is computed anew by every read, with the answers it gives;
* `Fetch` : one part, at hand, known to be missing, or behind a getter;
* `Step`, `Enumeration`, `Sequence` : the items of a container, at hand, or produced by an enumerator that can fail and
  break off.

`results` lists the values that reading a part can give. A getter, the creation of an enumerator, each of its steps and
its end may request a stop.
-/

namespace GraphMarkup

/-- A part computed by every read: the first read gives `first`, and each later one the next of `later`, of which the
last repeats for ever. Read number `stopsOn`, counted from one, requests a stop. -/
structure Getter (α : Type) where
  id : Nat
  first : Except String α
  later : List (Except String α) := []
  stopsOn : Option Nat := none

namespace Getter

variable {α : Type}

/-- The answer to a read, counted from one. -/
def answer (g : Getter α) (read : Nat) : Except String α :=
  (g.first :: g.later)[read - 1]?.getD (g.later.getLastD g.first)

def results (g : Getter α) : List α := (g.first :: g.later).filterMap Except.toOption

end Getter

/-- A part that is at hand, known to be missing, or behind a getter. -/
inductive Fetch (α : Type) where
  | ready (value : α)
  | failed (reason : String)
  | deferred (getter : Getter α)

namespace Fetch

variable {α : Type}

def ready? : Fetch α → Option α
  | ready value => some value
  | _ => none

def results : Fetch α → List α
  | ready value => [value]
  | failed _ => []
  | deferred getter => getter.results

end Fetch

/-- One step of an enumerator: an item, or the reason why it breaks off. -/
structure Step (α : Type) where
  outcome : Except String α
  stops : Bool := false

/-- An enumeration: the steps of its enumerator, and whether a stop is requested when there are no more of them. -/
structure Enumeration (α : Type) where
  steps : List (Step α)
  endStops : Bool := false

def Enumeration.results {α : Type} (e : Enumeration α) : List α := e.steps.filterMap fun step => step.outcome.toOption

/-- The items of a container: at hand, or behind an enumerator that is created anew for every enumeration, if it can
be. -/
inductive Sequence (α : Type) where
  | ready (items : List α)
  | deferred (enumerator : Getter (Enumeration α))

namespace Sequence

variable {α : Type}

/-- Items behind an enumerator that can never be created. -/
def refused (id : Nat) (reason : String) : Sequence α := deferred { id, first := .error reason }

/-- Items behind an enumerator that takes the same steps in every enumeration. -/
def stepped (id : Nat) (steps : List (Step α)) : Sequence α := deferred { id, first := .ok { steps } }

def results : Sequence α → List α
  | ready items => items
  | deferred enumerator => enumerator.results.flatMap Enumeration.results

end Sequence

end GraphMarkup
