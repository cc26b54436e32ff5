import GraphMarkup.Json.Basic
import GraphMarkup.Json.Token

/-!
# Reading JSON

* `Json.Container` : an array or object that is still open;
* `Json.Reader` : the open containers, the innermost first, and what has to come next;
* `Json.parse?` : the JSON value that a text is, token by token.
-/

namespace GraphMarkup.Json

/-- An array or object that is still open: its items, in reverse, or its fields, with the key of the one that is being
read. -/
inductive Container where
  | array (items : List Json)
  | object (fields : List (String × Json)) (key : Option String)

/-- What has to come next. -/
inductive Expected where
  | value
  /-- A value, or the end of an array that is empty. -/
  | firstItem
  /-- A key, or the end of an object that is empty. -/
  | firstKey
  | key
  | colon
  /-- A comma, or the end of the innermost container. -/
  | separator
  /-- Nothing: the text is this value. -/
  | nothing (result : Json)

/-- The open containers and what has to come next. -/
structure Reader where
  containers : List Container := []
  expected : Expected := .value

namespace Reader

def nestingLimit : Nat := 127

def enter (r : Reader) (container : Container) (expected : Expected) : Option Reader :=
  if r.containers.length < nestingLimit then some { containers := container :: r.containers, expected } else none

/-- Puts a complete value where it belongs. -/
def complete (containers : List Container) (value : Json) : Option Reader :=
  match containers with
  | [] => some { expected := .nothing value }
  | .array items :: rest => some { containers := .array (value :: items) :: rest, expected := .separator }
  | .object fields (some key) :: rest =>
    some { containers := .object (setField key value fields) none :: rest, expected := .separator }
  | .object _ none :: _ => none

def stepValue (r : Reader) : JsonToken → Option Reader
  | .null => complete r.containers .null
  | .bool value => complete r.containers (.bool value)
  | .number value => complete r.containers (.number value)
  | .string value => complete r.containers (.string value)
  | .openArray => r.enter (.array []) .firstItem
  | .openObject => r.enter (.object [] none) .firstKey
  | _ => none

def stepKey (r : Reader) (token : JsonToken) : Option Reader :=
  match token, r.containers with
  | .string key, .object fields none :: rest =>
    some { containers := .object fields (some key) :: rest, expected := .colon }
  | _, _ => none

def stepClose (r : Reader) (token : JsonToken) : Option Reader :=
  match token, r.containers with
  | .closeArray, .array items :: rest => complete rest (.array items.reverse)
  | .closeObject, .object fields none :: rest => complete rest (.object fields)
  | _, _ => none

def step (r : Reader) (token : JsonToken) : Option Reader :=
  match r.expected with
  | .value => r.stepValue token
  | .firstItem => if token = .closeArray then r.stepClose token else r.stepValue token
  | .firstKey => if token = .closeObject then r.stepClose token else r.stepKey token
  | .key => r.stepKey token
  | .colon => if token = .colon then some { r with expected := .value } else none
  | .separator =>
    if token = .comma then
      match r.containers with
      | .array _ :: _ => some { r with expected := .value }
      | _ => some { r with expected := .key }
    else r.stepClose token
  | .nothing _ => none

end Reader

/-- The JSON value that a text is, if it is one. -/
def parse? (text : String) : Option Json := do
  let reader ← (← JsonToken.scan? text).foldlM Reader.step {}
  match reader.expected with
  | .nothing result => some result
  | _ => none

end GraphMarkup.Json
