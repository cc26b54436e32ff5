import GraphMarkup.Session

/-!
# Values from self-describing data

* `Datum` : data described by what it is made of: scalars, options, records, tuples, cases of a sum type, and maps;
* `MapCall`, `MapBuilder` : a map is described by keys and values one by one, which have to come in pairs;
* `Datum.toValue` : the value of a datum, or the first error in the order of the description;
* `Datum.toXml` : a datum as an XML document with one item.

Records become objects with their fields in order, maps dictionaries, sequences and tuples lists, bare cases named
constants, and other cases objects named after type and case.
-/

namespace GraphMarkup

/-- A part of a map. -/
inductive MapCall (α : Type) where
  | key (content : α)
  | value (content : α)

/-- Data described by what it is made of. -/
inductive Datum where
  | scalar (scalar : Scalar)
  /-- No value. -/
  | absent
  /-- A value that might have been absent. -/
  | present (content : Datum)
  | unit
  /-- A number too wide for every kind of scalar, of which only the type is told. -/
  | wideInteger (typeName : String)
  /-- Data that cannot describe itself. -/
  | failure (text : String)
  | bytes (items : List UInt8)
  | emptyRecord (typeName : String)
  /-- A record that is nothing but its one field. -/
  | wrapper (content : Datum)
  | sequence (items : List Datum)
  | tuple (items : List Datum)
  | namedTuple (typeName : String) (items : List Datum)
  | map (calls : List (MapCall Datum))
  /-- Named fields; one without content is skipped. -/
  | record (typeName : String) (fields : List (String × Option Datum))
  | bareCase (typeName caseName : String) (index : UInt32)
  | wrapperCase (typeName caseName : String) (content : Datum)
  | tupleCase (typeName caseName : String) (items : List Datum)
  | recordCase (typeName caseName : String) (fields : List (String × Option Datum))

/-- The pairs of a map so far, and a key that still lacks its value. -/
structure MapBuilder where
  entries : Array (Value × Value) := #[]
  pendingKey : Option Value := none

namespace MapBuilder

def finish (b : MapBuilder) : Except Error Value :=
  match b.pendingKey with
  | some _ => .error (.conversion .keyWithoutValue)
  | none => .ok (.dict none (.ready b.entries.toList))

end MapBuilder

namespace Datum

def listOf (typeName : Option String) (items : List Value) : Value := .list .list typeName (.ready items) []

def caseTypeName (typeName caseName : String) : String := typeName ++ "::" ++ caseName

/-- Values as properties named by their positions. -/
def numbered (items : List Value) : List (Property Value) :=
  items.zipIdx.map fun (value, index) => { name := index.repr, value := .ready value }

mutual

def toValue : Datum → Except Error Value
  | scalar s => .ok (.scalar s)
  | absent | unit => .ok .null
  | present content | wrapper content => content.toValue
  | wideInteger typeName => .error (.conversion (.unsupported typeName))
  | failure text => .error (.conversion (.other text))
  | bytes items => .ok (listOf none (items.map fun item => .scalar (.nat8 item)))
  | emptyRecord typeName => .ok (.object typeName [] none)
  | sequence items | tuple items => do return listOf none (← toValues items)
  | namedTuple typeName items => do return listOf (some typeName) (← toValues items)
  | map calls => do (← addCalls calls {}).finish
  | record typeName fields => do return .object typeName (← toProperties fields) none
  | bareCase typeName caseName index => .ok (.enum typeName caseName (.nat32 index))
  | wrapperCase typeName caseName content => do
    return .object (caseTypeName typeName caseName) (numbered [← content.toValue]) none
  | tupleCase typeName caseName items => do
    return .object (caseTypeName typeName caseName) (numbered (← toValues items)) none
  | recordCase typeName caseName fields => do
    return .object (caseTypeName typeName caseName) (← toProperties fields) none

def toValues : List Datum → Except Error (List Value)
  | [] => .ok []
  | item :: items => do
    let value ← item.toValue
    return value :: (← toValues items)

def toProperties : List (String × Option Datum) → Except Error (List (Property Value))
  | [] => .ok []
  | (_, none) :: fields => toProperties fields
  | (name, some content) :: fields => do
    let value ← content.toValue
    return { name, value := .ready value } :: (← toProperties fields)

/-- A map with more parts. A later key takes the place of one that lacks its value, and a value without a key is an
error before it is looked at. -/
def addCalls : List (MapCall Datum) → MapBuilder → Except Error MapBuilder
  | [], b => .ok b
  | .key content :: calls, b => do
    let key ← content.toValue
    addCalls calls { b with pendingKey := some key }
  | .value content :: calls, b =>
    match b.pendingKey with
    | none => .error (.conversion .valueWithoutKey)
    | some key => do
      let value ← content.toValue
      addCalls calls { entries := b.entries.push (key, value), pendingKey := none }

end

def toXml (policy : Policy) (datum : Datum) : Except Error String := do
  (GraphMarkup.toXml policy [← datum.toValue]).1

end Datum

end GraphMarkup
