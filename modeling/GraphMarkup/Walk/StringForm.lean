import GraphMarkup.Walk.Basic

/-!
# String forms

* `readDisplay`, `displayText` : the string form of an object, and of any value, by itself;
* `sourceProperty?` : the property that stands for the string form of a value, where its hints name one;
* `stringForm` : the string form of a value, or none if there is none or it cannot be had;
* `stringLeaf` : the scalar that stands for a value next to its notes.
-/

namespace GraphMarkup

/-- The string form of an object by itself: its own, or else its type name. -/
def readDisplay (typeName : String) (display : Option (Fetch String)) : StateM Run (Except String String) :=
  match display with
  | none => return .ok typeName
  | some text => text.read (.display typeName)

/-- The string form of a value by itself: a scalar's text, an object's string form, the name of a constant, and the
type name of a container. Null has none. -/
def displayText (policy : Policy) (value : Value) : StateM Run (Except String (Option String)) :=
  match value.base with
  | .null | .decorated .. => return .ok none
  | .scalar s => return .ok (some (policy.knownTypes.textOf s))
  | .object typeName _ display => do return (← readDisplay typeName display).map some
  | .enum _ name _ => return .ok (some name)
  | .list .. | .dict .. => return .ok (value.typeName? policy.knownTypes)

/-- The name of the property that is to stand for the string form of a value. -/
def Policy.stringSource? (policy : Policy) (value : Value) : Option String :=
  (policy.hintsFor? value).bind TypeHints.stringSource

/-- The property that stands for the string form of a value: the first of the name that its hints give. -/
def sourceProperty? (policy : Policy) (value : Value) : Option (Property Value) :=
  (policy.stringSource? value).bind fun name => value.properties.find? fun p => p.name == name

/-- The string form of a value, by way of the property that stands for it or else by itself. -/
def stringForm? (policy : Policy) (value : Value) : StateM Run (Except String (Option String)) :=
  match sourceProperty? policy value with
  | none => displayText policy value
  | some p => do
    match ← p.value.read (.source p.name) with
    | .ok source => displayText policy source
    | .error reason => return .error reason

/-- The string form of a value. One that cannot be had is a fault, and then there is none. -/
def stringForm (policy : Policy) (value : Value) : WalkM (Option String) := do
  match ← WalkM.onRun (stringForm? policy value) with
  | .ok text => return text
  | .error reason =>
    WalkM.note (.mended (.stringForm reason))
    return none

/-- The scalar that stands for a value next to its notes: a scalar itself, unless a property stands for it, and the
string form of anything else. -/
def stringLeaf (policy : Policy) (value : Value) : WalkM (Option Scalar) := do
  match value.base, policy.stringSource? value with
  | .scalar s, none => return some s
  | _, _ => return (← stringForm policy value).map .string

end GraphMarkup
