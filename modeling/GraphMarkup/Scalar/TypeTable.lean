import GraphMarkup.Scalar.Basic

/-!
# The table of known scalar types

* `TypeEntry` : the type name of one kind of scalar and how its values are written;
* `TypeTable` : the entries by kind, with `register` and `unregister`;
* `TypeTable.plain`, `TypeTable.dotnet` : the two tables that come with the library;
* `TypeTable.typeNameOf`, `TypeTable.textOf` : name and text of any scalar, in the table or not.

A kind without an entry is not a known type: its values have no typed leaf of their own and are written by way of
their string form.
-/

namespace GraphMarkup

/-- How one kind of scalar is named and written. -/
structure TypeEntry where
  typeName : String
  render : Scalar → String

/-- The known scalar types. -/
structure TypeTable where
  lookup? : ScalarKind → Option TypeEntry

namespace TypeTable

def empty : TypeTable := ⟨fun _ => none⟩

def full (typeName : ScalarKind → String) (render : Scalar → String) : TypeTable :=
  ⟨fun kind => some ⟨typeName kind, render⟩⟩

def plainName : ScalarKind → String
  | .bool => "bool"
  | .char => "char"
  | .int8 => "i8"
  | .int16 => "i16"
  | .int32 => "i32"
  | .int64 => "i64"
  | .nat8 => "u8"
  | .nat16 => "u16"
  | .nat32 => "u32"
  | .nat64 => "u64"
  | .float32 => "f32"
  | .float64 => "f64"
  | .string => "String"
  | .stamp => "DateTime"
  | .span => "Duration"

def plain : TypeTable := full plainName Scalar.text

def capitalised : Scalar → String
  | .bool true => "True"
  | .bool false => "False"
  | other => other.text

def dotnetName : ScalarKind → String
  | .bool => "System.Boolean"
  | .char => "System.Char"
  | .int8 => "System.SByte"
  | .int16 => "System.Int16"
  | .int32 => "System.Int32"
  | .int64 => "System.Int64"
  | .nat8 => "System.Byte"
  | .nat16 => "System.UInt16"
  | .nat32 => "System.UInt32"
  | .nat64 => "System.UInt64"
  | .float32 => "System.Single"
  | .float64 => "System.Double"
  | .string => "System.String"
  | .stamp => "System.DateTime"
  | .span => "System.TimeSpan"

/-- The type names of the `System` namespace, and truth values capitalised. -/
def dotnet : TypeTable := full dotnetName capitalised

/-- The table with the entry of one kind put in place of what was there. -/
def set (table : TypeTable) (kind : ScalarKind) (entry : Option TypeEntry) : TypeTable :=
  ⟨fun k => if k = kind then entry else table.lookup? k⟩

/-- Gives a kind an entry, in place of the one it had. -/
def register (table : TypeTable) (kind : ScalarKind) (entry : TypeEntry) : TypeTable := table.set kind (some entry)

def unregister (table : TypeTable) (kind : ScalarKind) : TypeTable := table.set kind none

@[simp] theorem lookup?_register_self (table : TypeTable) (kind : ScalarKind) (entry : TypeEntry) :
    (table.register kind entry).lookup? kind = some entry := by
  simp [register, set]

@[simp] theorem lookup?_unregister_self (table : TypeTable) (kind : ScalarKind) :
    (table.unregister kind).lookup? kind = none := by
  simp [unregister, set]

theorem lookup?_register_of_ne (table : TypeTable) {kind k : ScalarKind} (entry : TypeEntry) (h : k ≠ kind) :
    (table.register kind entry).lookup? k = table.lookup? k := by
  simp [register, set, h]

theorem lookup?_unregister_of_ne (table : TypeTable) {kind k : ScalarKind} (h : k ≠ kind) :
    (table.unregister kind).lookup? k = table.lookup? k := by
  simp [unregister, set, h]

def knows (table : TypeTable) (scalar : Scalar) : Bool := (table.lookup? scalar.kind).isSome

/-- The type name of a scalar: its entry's, or else the name of its kind. -/
def typeNameOf (table : TypeTable) (scalar : Scalar) : String :=
  match table.lookup? scalar.kind with
  | some entry => entry.typeName
  | none => scalar.kind.name

/-- The text of a scalar: what its entry makes of it, or else its plain text. -/
def textOf (table : TypeTable) (scalar : Scalar) : String :=
  match table.lookup? scalar.kind with
  | some entry => entry.render scalar
  | none => scalar.text

end TypeTable

end GraphMarkup
