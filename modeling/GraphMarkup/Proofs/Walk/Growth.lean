import GraphMarkup.Proofs.Markup.Forest
import GraphMarkup.Walk.Node

/-!
# The element of a value

* `grow` : the walk over a value that gives its element instead of recording events;
* `Records` : a step of a walk that records the events of what another one gives;
* `write_records_grow` : writing a value records the events of its element.

Growing an element takes the same steps through the graph as writing it, and leaves the recorder alone.
-/

namespace GraphMarkup

/-! ## Growing elements -/

/-- How the element of a value inside another is grown. -/
abbrev InsideElement := Value → Option String → Nat → WalkM Element

section

variable {α : Type}

/-- Goes through things in order and joins what they give. -/
def gather (body : α → WalkM (List Element)) : List α → WalkM (List Element)
  | [] => return []
  | a :: as => return (← body a) ++ (← gather body as)

/-- Asks an enumerator for its steps, as `forEachStep` does, and joins what the items give. -/
def gatherSteps (id : Nat) (endStops : Bool) (body : α → WalkM (List Element)) :
    Nat → List (Step α) → WalkM (List Element)
  | _, [] => do
    WalkM.onRun (modify (Run.stopIf endStops))
    return []
  | index, step :: steps => do
    WalkM.onRun (modify fun run =>
      (run.ask (.step index) (some id) (failure? step.outcome)).stopIf step.stops)
    match step.outcome with
    | .ok item => return (← body item) ++ (← gatherSteps id endStops body (index + 1) steps)
    | .error reason =>
      WalkM.note (.mended (.brokenEnumerator reason))
      return []

/-- Passes on the items of a container, as `forEachItem` does, and joins what they give. -/
def gatherItems (items : Sequence α) (body : α → WalkM (List Element)) : WalkM (List Element) :=
  match items with
  | .ready items => gather body items
  | .deferred enumerator => do
    match ← WalkM.onRun ((Fetch.deferred enumerator).read .enumerator) with
    | .ok enumeration => gatherSteps enumerator.id enumeration.endStops body 0 enumeration.steps
    | .error reason =>
      WalkM.note (.mended (.refusedEnumerator reason))
      return []

end

/-- The attribute with a type name, if there is one and the policy wants it. -/
def typeAttributes (policy : Policy) (typeName : Option String) : List (String × String) :=
  match typeName with
  | some typeName => if policy.includeTypeNames then [(policy.names.typeAttribute, typeName)] else []
  | none => []

/-- The element of a value as it begins: a named one is a property; an unnamed one has the tag of items if it is the
first in its item, and that of properties otherwise. -/
def growStart (policy : Policy) (name typeName : Option String) : WalkM Element := do
  match name with
  | some name =>
    return { tag := policy.names.property,
             attributes := (policy.names.nameAttribute, name) :: typeAttributes policy typeName }
  | none =>
    if (← get).itemTagDue then
      modify fun w => { w with itemTagDue := false }
      return { tag := policy.names.object, attributes := typeAttributes policy typeName }
    else
      return { tag := policy.names.property, attributes := typeAttributes policy typeName }

theorem run_of_growStart {policy : Policy} {name typeName : Option String} {w w' : Walker} {e : Element}
    (h : growStart policy name typeName w = .ok e w') : w'.run = w.run := by
  obtain ⟨recorder, run, itemTagDue, promotionDue, visited⟩ := w
  cases name with
  | some name =>
    cases h
    rfl
  | none =>
    cases itemTagDue with
    | true =>
      cases h
      rfl
    | false =>
      cases h
      rfl

def growText (policy : Policy) (name typeName : Option String) (text : String) : WalkM Element :=
  return { ← growStart policy name typeName with text := some text }

def growAround (policy : Policy) (name typeName : Option String) (inside : WalkM (List Element)) : WalkM Element := do
  let start ← growStart policy name typeName
  return { start with children := ← inside }

def growScalar (policy : Policy) (name : Option String) (scalar : Scalar) : WalkM Element :=
  growText policy name (some (policy.knownTypes.typeNameOf scalar)) (policy.knownTypes.textOf scalar)

def growNull (policy : Policy) (name : Option String) : WalkM Element := growAround policy name none (return [])

def emptyProperty (policy : Policy) (p : Property Value) : Element :=
  { tag := policy.names.property,
    attributes := (policy.names.nameAttribute, p.name) :: typeAttributes policy (p.typeName? policy.knownTypes) }

def growProperty (policy : Policy) (inside : InsideElement) (depth : Nat) (p : Property Value) : WalkM Element := do
  WalkM.poll
  match ← WalkM.onRun (p.value.read (.property p.name)) with
  | .ok value =>
    if value.isNull then return emptyProperty policy p
    else inside value (some p.name) depth
  | .error reason =>
    WalkM.note (.mended (.property p.name reason))
    return emptyProperty policy p

def growProperties (policy : Policy) (inside : InsideElement) (depth : Nat) (ps : List (Property Value)) :
    WalkM (List Element) :=
  gather (fun p => return [← growProperty policy inside (depth - 1) p]) ps

def growSelection (policy : Policy) (inside : InsideElement) (value : Value) (depth : Nat) : WalkM (List Element) :=
  growProperties policy inside (policy.depthFor value depth) (policy.selection value)

def growItems (policy : Policy) (inside : InsideElement) (depth : Nat) : Shape → WalkM (List Element)
  | .dictionary entries => gatherItems entries fun entry =>
    return [← inside entry.1 (some policy.names.key) depth, ← inside entry.2 (some policy.names.value) depth]
  | .list _ elements => gatherItems elements fun item => return [← inside item none depth]

def growContents (policy : Policy) (inside : InsideElement) (value : Value) (shape : Shape)
    (decoration : Option Decoration) (depth : Nat) : WalkM (List Element) := do
  let items ← growItems policy inside depth shape
  if shape.hasSidecar || decoration.any Decoration.deserialized then
    return items ++ (← growSelection policy inside value depth)
  else
    return items ++ (← growProperties policy inside depth ((decoration.map Decoration.notes).getD []))

/-- The element of a scalar that stands for a value next to its notes, if there is one. -/
def growLeaf (policy : Policy) (leaf : Option Scalar) : WalkM (List Element) :=
  match leaf with
  | some leaf => return [← growScalar policy none leaf]
  | none => return []

def growString (policy : Policy) (inside : InsideElement) (value : Value) (name : Option String) (depth : Nat) :
    WalkM Element := do
  if value.notes.isEmpty then
    match ← stringForm policy value with
    | some text => growText policy name (value.typeName? policy.knownTypes) text
    | none => growNull policy name
  else
    growAround policy name (value.typeName? policy.knownTypes) do
      let leaf ← stringLeaf policy value
      return (← growLeaf policy leaf) ++ (← growProperties policy inside depth value.notes)

def growPromoted (policy : Policy) (inside : InsideElement) (value : Value) (depth : Nat) : WalkM (List Element) :=
  match value.base with
  | .object .. => growSelection policy inside value depth
  | base => return (← inside base none depth) :: (← growProperties policy inside depth value.notes)

def growChain (policy : Policy) (inside : InsideElement) (value inner : Value) (notes : List (Property Value))
    (depth : Nat) : WalkM (List Element) := do
  if (← get).promotionDue then
    modify fun w => { w with promotionDue := false }
    growPromoted policy inside value depth
  else
    return (← inside inner none depth) :: (← growProperties policy inside depth notes)

def growParts (policy : Policy) (inside : InsideElement) (value : Value) (depth : Nat) : WalkM (List Element) :=
  match value with
  | .decorated (.decorated inner notes deserialized) outerNotes _ =>
    growChain policy inside value (.decorated inner notes deserialized) outerNotes depth
  | _ => growSelection policy inside value depth

theorem growParts_of_not_chain (policy : Policy) (inside : InsideElement) {value : Value} (h : ¬ value.isChain)
    (depth : Nat) : growParts policy inside value depth = growSelection policy inside value depth := by
  unfold growParts
  split
  · exact absurd rfl h
  · rfl

/-- The element of a value, given how the elements of the values inside it are grown. -/
def growNode (policy : Policy) (inside : InsideElement) (value : Value) (name : Option String) (depth : Nat) :
    WalkM Element := do
  WalkM.poll
  WalkM.visit
  match classify policy value depth with
  | .null => growNull policy name
  | .scalar scalar => growScalar policy name scalar
  | .notedScalar notes scalar =>
    if notes.isEmpty then growScalar policy name scalar
    else growAround policy name (some (policy.knownTypes.typeNameOf scalar)) do
      return (← growScalar policy none scalar) :: (← growProperties policy inside depth notes)
  | .container shape decoration =>
    growAround policy name (value.typeName? policy.knownTypes)
      (growContents policy inside value shape decoration depth)
  | .enumLike _ underlying => growScalar policy name underlying
  | .asString => growString policy inside value name depth
  | .complex => growAround policy name (value.typeName? policy.knownTypes) (growParts policy inside value depth)

/-- The elements of values with a number of levels. With none left the walk ends, as writing them does. -/
def growWithin (policy : Policy) : Nat → InsideElement
  | 0 => fun _ _ _ => throw .cancelled
  | levels + 1 => growNode policy (growWithin policy levels)

/-- The element of a value, named if a name is given, with `depth` more levels of properties. -/
def grow (policy : Policy) (value : Value) (name : Option String) (depth : Nat) : WalkM Element :=
  growWithin policy value.height value name depth

end GraphMarkup
