import GraphMarkup.Error
import GraphMarkup.Scalar.TypeTable

/-!
# Policies

* `ElementNames` : the tags and attribute names of the output, and the names of dictionary keys and values;
* `TypeHints` : how objects of one type are written;
* `Policy` : depth, type names on or off, names, known scalar types, and hints by type name;
* `Policy.validate` : what a session asks of a policy.
-/

namespace GraphMarkup

/-- The vocabulary of the output. -/
structure ElementNames where
  root : String := "Objects"
  object : String := "Object"
  property : String := "Property"
  nameAttribute : String := "Name"
  typeAttribute : String := "Type"
  key : String := "Key"
  value : String := "Value"
  deriving DecidableEq, Repr

namespace ElementNames

/-- The names, each with the name of its field. -/
def fields (names : ElementNames) : List (String × String) :=
  [("root", names.root), ("object", names.object), ("property", names.property),
    ("name_attribute", names.nameAttribute), ("type_attribute", names.typeAttribute), ("key", names.key),
    ("value", names.value)]

/-- No name is empty, and keys can be told from values. -/
def validate (names : ElementNames) : Except Error Unit :=
  match names.fields.find? fun field => field.2.isEmpty with
  | some field => .error (.configuration (.emptyName field.1))
  | none =>
    if names.key = names.value then .error (.configuration (.sameKeyAndValue names.key))
    else .ok ()

end ElementNames

/-- What is written of an object. -/
inductive Method where
  /-- Every property. -/
  | allProperties
  /-- The string form alone. -/
  | string
  /-- The properties of these names, in this order. -/
  | properties (names : List String)
  deriving DecidableEq, Repr

/-- How objects of one type are written. A `depth` above zero takes the place of the depth left for the properties;
`stringSource` names the property that gives the string form. -/
structure TypeHints where
  method : Method := .allProperties
  depth : Option Nat := none
  stringSource : Option String := none
  deriving DecidableEq, Repr

/-- What shapes the output. -/
structure Policy where
  depth : Nat := 1
  includeTypeNames : Bool := true
  names : ElementNames := {}
  knownTypes : TypeTable := TypeTable.plain
  hints : List (String × TypeHints) := []

namespace Policy

def validateDepth (depth : Nat) : Except Error Unit :=
  if depth < 1 then .error (.configuration (.depthTooSmall depth)) else .ok ()

/-- A policy of the given depth that is otherwise the default one. -/
def ofDepth (depth : Nat) : Except Error Policy := do
  validateDepth depth
  return { depth }

/-- Sets the hints of a type, in place of those it had. -/
def withHints (policy : Policy) (typeName : String) (hints : TypeHints) : Policy :=
  { policy with hints := (typeName, hints) :: policy.hints }

def typeHints? (policy : Policy) (typeName : String) : Option TypeHints := policy.hints.lookup typeName

@[simp] theorem typeHints?_withHints_self (policy : Policy) (typeName : String) (hints : TypeHints) :
    (policy.withHints typeName hints).typeHints? typeName = some hints := by
  simp [withHints, typeHints?]

theorem typeHints?_withHints_of_ne (policy : Policy) {typeName other : String} (hints : TypeHints)
    (h : other ≠ typeName) : (policy.withHints typeName hints).typeHints? other = policy.typeHints? other := by
  have hbeq : (other == typeName) = false := beq_eq_false_iff_ne.2 h
  simp only [withHints, typeHints?, List.lookup_cons, hbeq]

/-- What a session asks of a policy. -/
def validate (policy : Policy) : Except Error Unit := do
  validateDepth policy.depth
  policy.names.validate

end Policy

end GraphMarkup
