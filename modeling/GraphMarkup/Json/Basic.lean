import GraphMarkup.Graph.Value
import GraphMarkup.Json.Numeral

/-!
# JSON documents

* `Json` : JSON values; the fields of an object have distinct keys in ascending order;
* `Json.setField` : gives a field a value, in place of the one it had;
* `Json.toValue`, `Json.items` : a JSON value as a value, and a document as its top-level items.
-/

namespace GraphMarkup

/-- JSON values. -/
inductive Json where
  | null
  | bool (value : Bool)
  | number (value : JsonNumber)
  | string (value : String)
  | array (items : List Json)
  | object (fields : List (String × Json))

namespace Json

/-- Gives a field a value. Fields stay in the order of their keys, which is that of their code points. -/
def setField (key : String) (value : Json) : List (String × Json) → List (String × Json)
  | [] => [(key, value)]
  | field :: fields =>
    if key < field.1 then (key, value) :: field :: fields
    else if key = field.1 then (key, value) :: fields
    else field :: setField key value fields

def objectTypeName : String := "PSCustomObject"

def numberScalar : JsonNumber → Scalar
  | .integer value => if value < Nat.pow 2 63 then .int64 (Int64.ofInt value) else .nat64 (UInt64.ofNat value.toNat)
  | .real bits => .float64 bits

mutual

/-- A JSON value as a value: arrays become lists, and objects get their fields as properties. -/
def toValue : Json → Value
  | null => .null
  | bool value => .scalar (.bool value)
  | number value => .scalar (numberScalar value)
  | string value => .scalar (.string value)
  | array items => .list .list none (.ready (toValues items)) []
  | object fields => .object objectTypeName (toProperties fields) none

def toValues : List Json → List Value
  | [] => []
  | item :: items => item.toValue :: toValues items

def toProperties : List (String × Json) → List (Property Value)
  | [] => []
  | (name, content) :: fields => { name, value := .ready content.toValue } :: toProperties fields

end

/-- The top-level items of a document: those of an array, or the one value that it is. -/
def items : Json → List Value
  | array items => toValues items
  | other => [other.toValue]

end Json

end GraphMarkup
