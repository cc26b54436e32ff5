import GraphMarkup.Graph.Height
import GraphMarkup.Walk.StringForm

/-!
# Writing values

* `writeNode` : writes a value as one element, given how the values inside it are written;
* `writeWithin` : writes values with a given number of levels;
* `write` : writes any value as one element.

Every value inside a value is written with one level less, and `write` starts with as many levels as the height of its
value, so that they never run out. `write_eq_writeNode` says so.
-/

namespace GraphMarkup

/-- How a value inside another is written: under a name or none, with a number of levels of properties left. -/
abbrev Inside := Value → Option String → Nat → WalkM Unit

/-! ## Parts of an element -/

/-- Opens the element of a value. A named one is a property; an unnamed one has the tag of items if it is the first in
its item, and that of properties otherwise. -/
def openNode (policy : Policy) (name : Option String) : WalkM Unit := do
  match name with
  | some name =>
    WalkM.put (.openElement policy.names.property)
    WalkM.put (.attr policy.names.nameAttribute name)
  | none =>
    if (← get).itemTagDue then
      modify fun w => { w with itemTagDue := false }
      WalkM.put (.openElement policy.names.object)
    else
      WalkM.put (.openElement policy.names.property)

def writeType (policy : Policy) (typeName : Option String) : WalkM Unit :=
  match typeName with
  | some typeName =>
    if policy.includeTypeNames then WalkM.put (.attr policy.names.typeAttribute typeName) else pure ()
  | none => pure ()

def writeTypeOf (policy : Policy) (value : Value) : WalkM Unit :=
  writeType policy (value.typeName? policy.knownTypes)

def writeNull (policy : Policy) (name : Option String) : WalkM Unit := do
  openNode policy name
  WalkM.put .closeElement

def writeScalar (policy : Policy) (name : Option String) (scalar : Scalar) : WalkM Unit := do
  openNode policy name
  writeType policy (some (policy.knownTypes.typeNameOf scalar))
  WalkM.put (.text (policy.knownTypes.textOf scalar))
  WalkM.put .closeElement

/-! ## Properties -/

/-- Writes a property that is null or cannot be read: named, typed if a type is known, and empty. -/
def writeEmptyProperty (policy : Policy) (p : Property Value) : WalkM Unit := do
  WalkM.put (.openElement policy.names.property)
  WalkM.put (.attr policy.names.nameAttribute p.name)
  writeType policy (p.typeName? policy.knownTypes)
  WalkM.put .closeElement

/-- Reads and writes a property. One that cannot be read is a fault, and it is written empty. -/
def writeProperty (policy : Policy) (inside : Inside) (depth : Nat) (p : Property Value) : WalkM Unit := do
  WalkM.poll
  match ← WalkM.onRun (p.value.read (.property p.name)) with
  | .ok value =>
    if value.isNull then writeEmptyProperty policy p
    else inside value (some p.name) depth
  | .error reason =>
    WalkM.note (.mended (.property p.name reason))
    writeEmptyProperty policy p

/-- Writes properties of something at a depth, with one level less for each. -/
def writeProperties (policy : Policy) (inside : Inside) (depth : Nat) (ps : List (Property Value)) : WalkM Unit :=
  ps.forM (writeProperty policy inside (depth - 1))

/-- The depth for the properties of a value: that of its type, if it is set and not zero. -/
def Policy.depthFor (policy : Policy) (value : Value) (depth : Nat) : Nat :=
  match (policy.hintsFor? value).bind TypeHints.depth with
  | some typeDepth => if 0 < typeDepth then typeDepth else depth
  | none => depth

/-- The properties of a value to write: for a type with a selection the first of each name in it, and all otherwise. -/
def Policy.selection (policy : Policy) (value : Value) : List (Property Value) :=
  match (policy.hintsFor? value).map TypeHints.method with
  | some (.properties names) => names.filterMap fun name => value.properties.find? fun p => p.name == name
  | _ => value.properties

/-- Writes the properties of a value as the hints of its type say. -/
def writeSelection (policy : Policy) (inside : Inside) (value : Value) (depth : Nat) : WalkM Unit :=
  writeProperties policy inside (policy.depthFor value depth) (policy.selection value)

/-! ## The ways to write a value -/

/-- Writes a scalar with notes: plainly if there are none, else as an unnamed element in front of them. -/
def writeNotedScalar (policy : Policy) (inside : Inside) (notes : List (Property Value)) (scalar : Scalar)
    (name : Option String) (depth : Nat) : WalkM Unit := do
  if notes.isEmpty then writeScalar policy name scalar
  else
    openNode policy name
    writeType policy (some (policy.knownTypes.typeNameOf scalar))
    writeScalar policy none scalar
    writeProperties policy inside depth notes
    WalkM.put .closeElement

/-- Writes what a container holds: keys and values under their names in turn, or unnamed elements. -/
def writeItems (policy : Policy) (inside : Inside) (depth : Nat) : Shape → WalkM Unit
  | .dictionary entries => forEachItem entries fun entry => do
    inside entry.1 (some policy.names.key) depth
    inside entry.2 (some policy.names.value) depth
  | .list _ elements => forEachItem elements fun item => inside item none depth

/-- Whether the properties of a container itself are written after what it holds. -/
def Shape.hasSidecar : Shape → Bool
  | .list .enumerable _ => true
  | _ => false

/-- Writes a container: what it holds, and then its properties with its notes, or its notes alone. -/
def writeContainer (policy : Policy) (inside : Inside) (value : Value) (shape : Shape) (decoration : Option Decoration)
    (name : Option String) (depth : Nat) : WalkM Unit := do
  openNode policy name
  writeTypeOf policy value
  writeItems policy inside depth shape
  if shape.hasSidecar || decoration.any Decoration.deserialized then
    writeSelection policy inside value depth
  else
    writeProperties policy inside depth ((decoration.map Decoration.notes).getD [])
  WalkM.put .closeElement

/-- Writes the string form of a value as text, or as an unnamed element in front of the notes if there are any. -/
def writeAsString (policy : Policy) (inside : Inside) (value : Value) (name : Option String) (depth : Nat) :
    WalkM Unit := do
  if value.notes.isEmpty then
    match ← stringForm policy value with
    | some text =>
      openNode policy name
      writeTypeOf policy value
      WalkM.put (.text text)
      WalkM.put .closeElement
    | none => writeNull policy name
  else
    openNode policy name
    writeTypeOf policy value
    match ← stringLeaf policy value with
    | some leaf => writeScalar policy none leaf
    | none => pure ()
    writeProperties policy inside depth value.notes
    WalkM.put .closeElement

/-- Writes a chain of decorators. The first in an item is promoted: its base comes first, property by property if it is
an object, and then all notes. Every later one holds what its outermost decorator is around, and then the notes of that
decorator. -/
def writeChain (policy : Policy) (inside : Inside) (value inner : Value) (notes : List (Property Value))
    (depth : Nat) : WalkM Unit := do
  if (← get).promotionDue then
    modify fun w => { w with promotionDue := false }
    match value.base with
    | .object .. => writeSelection policy inside value depth
    | base =>
      inside base none depth
      writeProperties policy inside depth value.notes
  else
    inside inner none depth
    writeProperties policy inside depth notes

def writeComplex (policy : Policy) (inside : Inside) (value : Value) (name : Option String) (depth : Nat) :
    WalkM Unit := do
  openNode policy name
  writeTypeOf policy value
  match value with
  | .decorated (.decorated inner notes deserialized) outerNotes _ =>
    writeChain policy inside value (.decorated inner notes deserialized) outerNotes depth
  | _ => writeSelection policy inside value depth
  WalkM.put .closeElement

def writeNode (policy : Policy) (inside : Inside) (value : Value) (name : Option String) (depth : Nat) :
    WalkM Unit := do
  WalkM.poll
  WalkM.visit
  match classify policy value depth with
  | .null => writeNull policy name
  | .scalar scalar => writeScalar policy name scalar
  | .notedScalar notes scalar => writeNotedScalar policy inside notes scalar name depth
  | .container shape decoration => writeContainer policy inside value shape decoration name depth
  | .enumLike _ underlying => writeScalar policy name underlying
  | .asString => writeAsString policy inside value name depth
  | .complex => writeComplex policy inside value name depth

/-! ## Walks -/

/-- Writes values with a number of levels. With none left the walk ends, which no walk over a whole value meets. -/
def writeWithin (policy : Policy) : Nat → Inside
  | 0 => fun _ _ _ => throw .cancelled
  | levels + 1 => writeNode policy (writeWithin policy levels)

/-- Writes a value as one element, named if a name is given, with `depth` more levels of properties. -/
def write (policy : Policy) (value : Value) (name : Option String) (depth : Nat) : WalkM Unit :=
  writeWithin policy value.height value name depth

end GraphMarkup
