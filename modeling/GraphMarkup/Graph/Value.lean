import GraphMarkup.Graph.Fetch
import GraphMarkup.Scalar.TypeTable

/-!
# Values

* `Property` : a named part of a value;
* `Value` : null, scalars, named constants, lists, dictionaries, objects, and values decorated with notes;
* `Value.base`, `Value.notes`, `Value.properties` : what a nest of decorators ends in, its notes from the innermost
  decorator to the outermost, and the properties of the base followed by them;
* `Value.typeName?`, `Property.typeName?` : type names.
-/

namespace GraphMarkup

/-- A named part of a value. -/
structure Property (α : Type) where
  name : String
  declaredType : Option String := none
  value : Fetch α

/-- The sorts of ordered containers. -/
inductive ListKind where
  | list
  | stack
  | queue
  | enumerable
  deriving DecidableEq, Repr

def ListKind.defaultTypeName : ListKind → String
  | list => "Vec"
  | stack => "Stack"
  | queue => "VecDeque"
  | enumerable => "Iterator"

/-- The nodes of a graph. -/
inductive Value where
  | null
  | scalar (scalar : Scalar)
  /-- A named constant that stands for a whole number. -/
  | enum (typeName name : String) (underlying : Scalar)
  /-- An ordered container, which may have properties of its own. -/
  | list (kind : ListKind) (typeName : Option String) (elements : Sequence Value) (properties : List (Property Value))
  | dict (typeName : Option String) (entries : Sequence (Value × Value))
  /-- Named properties in order, and a string form if it is not the type name. -/
  | object (typeName : String) (properties : List (Property Value)) (display : Option (Fetch String))
  /-- A value with notes attached, which may have been rebuilt from an earlier serialization. -/
  | decorated (inner : Value) (notes : List (Property Value)) (deserialized : Bool)

instance : Inhabited Value := ⟨.null⟩

namespace Value

/-- Whether a value is null itself; a decorated null is not. -/
def isNull : Value → Bool
  | null => true
  | _ => false

/-- What a nest of decorators ends in. -/
def base : Value → Value
  | decorated inner _ _ => base inner
  | value => value

/-- The notes of all decorators, from the innermost to the outermost. -/
def notes : Value → List (Property Value)
  | decorated inner notes _ => inner.notes ++ notes
  | _ => []

/-- The properties of a list or an object itself. -/
def ownProperties : Value → List (Property Value)
  | list _ _ _ properties => properties
  | object _ properties _ => properties
  | _ => []

/-- The first property of a name that a list or an object has itself. -/
def property? (v : Value) (name : String) : Option (Property Value) := v.ownProperties.find? fun p => p.name == name

/-- The properties of the base, and then the notes. -/
def properties (v : Value) : List (Property Value) := v.base.ownProperties ++ v.notes

def isChain : Value → Bool
  | decorated (decorated ..) _ _ => true
  | _ => false

theorem exists_of_isChain {v : Value} (h : v.isChain) : ∃ inner notes deserialized outerNotes outerDeserialized,
    v = decorated (decorated inner notes deserialized) outerNotes outerDeserialized := by
  cases v with
  | decorated v outerNotes outerDeserialized =>
    cases v with
    | decorated inner notes deserialized => exact ⟨inner, notes, deserialized, outerNotes, outerDeserialized, rfl⟩
    | null | scalar | enum | list | dict | object => cases h
  | null | scalar | enum | list | dict | object => cases h

@[simp] theorem base_decorated (inner : Value) (notes : List (Property Value)) (deserialized : Bool) :
    (decorated inner notes deserialized).base = inner.base := rfl

theorem base_ne_decorated (v inner : Value) (notes : List (Property Value)) (deserialized : Bool) :
    v.base ≠ decorated inner notes deserialized := by
  fun_induction base v with
  | case1 _ _ _ ih => exact ih
  | case2 value h => exact h inner notes deserialized

/-- The type name of the base; null has none. -/
def typeName? (table : TypeTable) (v : Value) : Option String :=
  match v.base with
  | scalar s => some (table.typeNameOf s)
  | enum typeName _ _ => some typeName
  | list kind typeName _ _ => some (typeName.getD kind.defaultTypeName)
  | dict typeName _ => some (typeName.getD "Map")
  | object typeName _ _ => some typeName
  | null | decorated .. => none

end Value

/-- The type name of a property: the declared one, or else that of a value at hand. -/
def Property.typeName? (table : TypeTable) (p : Property Value) : Option String :=
  match p.declaredType with
  | some typeName => some typeName
  | none => p.value.ready?.bind fun v => v.typeName? table

end GraphMarkup
