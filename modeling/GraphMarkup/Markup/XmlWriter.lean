import GraphMarkup.Markup.Escape
import GraphMarkup.Markup.Event
import GraphMarkup.Markup.Output

/-!
# Writing elements as XML text

* `XmlWriter` : an output and the elements open on it, the innermost first;
* `XmlWriter.put` : writes an event;
* `XmlWriter.declaration` : the XML declaration, in front of all elements.

The `>` of a start tag is written only when the next event shows that the element is not empty. With an indentation
every element is on a line of its own, except that an element which holds text ends on the line where it began.
-/

namespace GraphMarkup

/-- An element that has been opened: its tag, and what has been written into it. -/
structure OpenElement where
  tag : String
  hasChildren : Bool := false
  hasText : Bool := false
  deriving DecidableEq, Repr

/-- Writes XML text into an output. `startTagOpen` tells that a `>` is still to come, `indent` the number of spaces
per level if elements get lines of their own, and `written` that the output is no longer empty. -/
structure XmlWriter (ο : Type) where
  out : ο
  stack : List OpenElement := []
  startTagOpen : Bool := false
  indent : Option Nat := none
  written : Bool := false

namespace XmlWriter

variable {ο : Type} [Output ο]

def emit (piece : String) : EStateM Error (XmlWriter ο) Unit := fun w =>
  match Output.write piece w.out with
  | .ok _ out => .ok () { w with out }
  | .error e out => .error e { w with out }

/-- Writes the `>` that is still to come, if any. -/
def finishStartTag : EStateM Error (XmlWriter ο) Unit := do
  if (← get).startTagOpen then
    emit ">"
    modify fun w => { w with startTagOpen := false }

/-- Hands spaces to the output one by one, up to the first that it refuses. -/
def spaces : Nat → EStateM Error (XmlWriter ο) Unit
  | 0 => pure ()
  | n + 1 => do
    emit " "
    spaces n

/-- Begins a line at a nesting level: nothing without indentation, and no line feed at the very top. -/
def newline (level : Nat) : EStateM Error (XmlWriter ο) Unit := do
  match (← get).indent with
  | none => pure ()
  | some width =>
    if (← get).written then emit "\n"
    spaces (level * width)

/-- The character data for a place, or the error that it cannot be written. -/
def escaped (place : Markup.Place) (text : String) : EStateM Error (XmlWriter ο) String :=
  match Markup.escape place text with
  | .ok text => pure text
  | .error fault => throw (.writer fault)

/-- Notes on the innermost open element that it has a child. -/
def noteChild (w : XmlWriter ο) : XmlWriter ο :=
  match w.stack with
  | [] => w
  | e :: rest => { w with stack := { e with hasChildren := true } :: rest }

def openElement (tag : String) : EStateM Error (XmlWriter ο) Unit := do
  if tag.isEmpty then throw (.writer .emptyTag)
  finishStartTag
  modify noteChild
  newline (← get).stack.length
  emit ("<" ++ tag)
  modify fun w => { w with stack := { tag } :: w.stack, startTagOpen := true, written := true }

def attr (name value : String) : EStateM Error (XmlWriter ο) Unit := do
  if !(← get).startTagOpen then throw (.writer (.strayAttribute name))
  let value ← escaped .attrValue value
  emit (" " ++ name ++ "=\"" ++ value ++ "\"")

def text (content : String) : EStateM Error (XmlWriter ο) Unit := do
  match (← get).stack with
  | [] => throw (.writer .strayText)
  | e :: rest =>
    let content ← escaped .content content
    modify fun w => { w with stack := { e with hasText := true } :: rest }
    finishStartTag
    emit content

/-- Closes the innermost open element: as an empty element while its start tag is open, else with an end tag. -/
def closeElement : EStateM Error (XmlWriter ο) Unit := do
  match (← get).stack with
  | [] => throw (.writer .strayClose)
  | e :: rest =>
    modify fun w => { w with stack := rest }
    if (← get).startTagOpen then
      emit " />"
      modify fun w => { w with startTagOpen := false }
    else
      if e.hasChildren && !e.hasText then newline rest.length
      emit ("</" ++ e.tag ++ ">")

def put : Event → EStateM Error (XmlWriter ο) Unit
  | .openElement tag => openElement tag
  | .attr name value => attr name value
  | .text content => text content
  | .closeElement => closeElement

def flush : EStateM Error (XmlWriter ο) Unit := fun w =>
  match Output.flush w.out with
  | .ok _ out => .ok () { w with out }
  | .error e out => .error e { w with out }

/-- Writes the XML declaration, which has to come first. -/
def declaration : EStateM Error (XmlWriter ο) Unit := do
  if (← get).written then throw (.writer .lateDeclaration)
  emit "<?xml version=\"1.0\" encoding=\"utf-8\"?>"
  modify fun w => { w with written := true }

instance : Writer (XmlWriter ο) where
  put := put
  flush := flush

end XmlWriter

end GraphMarkup
