import GraphMarkup.Time.Span

/-!
# Scalars

* `Scalar` : the values with a direct text form, floating-point numbers by their bit patterns;
* `ScalarKind`, `Scalar.kind` : which sort of scalar a value is;
* `Scalar.text` : the plain text of a scalar.
-/

namespace GraphMarkup

/-- A value with a direct text form. -/
inductive Scalar where
  | bool (value : Bool)
  | char (value : Char)
  | int8 (value : Int8)
  | int16 (value : Int16)
  | int32 (value : Int32)
  | int64 (value : Int64)
  | nat8 (value : UInt8)
  | nat16 (value : UInt16)
  | nat32 (value : UInt32)
  | nat64 (value : UInt64)
  | float32 (bits : UInt32)
  | float64 (bits : UInt64)
  | string (value : String)
  | stamp (value : Time.Stamp)
  | span (value : Time.Span)
  deriving DecidableEq, Repr

/-- The sorts of scalars. -/
inductive ScalarKind where
  | bool | char
  | int8 | int16 | int32 | int64
  | nat8 | nat16 | nat32 | nat64
  | float32 | float64
  | string | stamp | span
  deriving DecidableEq, Repr

namespace ScalarKind

def all : List ScalarKind :=
  [bool, char, int8, int16, int32, int64, nat8, nat16, nat32, nat64, float32, float64, string, stamp, span]

theorem mem_all (k : ScalarKind) : k ∈ all := by cases k <;> decide

/-- The kind's own name, which also stands for a type that has no other. -/
def name : ScalarKind → String
  | bool => "Bool"
  | char => "Char"
  | int8 => "I8"
  | int16 => "I16"
  | int32 => "I32"
  | int64 => "I64"
  | nat8 => "U8"
  | nat16 => "U16"
  | nat32 => "U32"
  | nat64 => "U64"
  | float32 => "F32"
  | float64 => "F64"
  | string => "String"
  | stamp => "DateTime"
  | span => "Duration"

def isInteger : ScalarKind → Bool
  | int8 | int16 | int32 | int64 | nat8 | nat16 | nat32 | nat64 => true
  | _ => false

end ScalarKind

namespace Scalar

def kind : Scalar → ScalarKind
  | bool _ => .bool
  | char _ => .char
  | int8 _ => .int8
  | int16 _ => .int16
  | int32 _ => .int32
  | int64 _ => .int64
  | nat8 _ => .nat8
  | nat16 _ => .nat16
  | nat32 _ => .nat32
  | nat64 _ => .nat64
  | float32 _ => .float32
  | float64 _ => .float64
  | string _ => .string
  | stamp _ => .stamp
  | span _ => .span

def isInteger (s : Scalar) : Bool := s.kind.isInteger

/-- The plain text of a scalar: numbers in decimal, text as it is. -/
def text : Scalar → String
  | bool true => "true"
  | bool false => "false"
  | char value => String.singleton value
  | int8 value => value.toInt.repr
  | int16 value => value.toInt.repr
  | int32 value => value.toInt.repr
  | int64 value => value.toInt.repr
  | nat8 value => value.toNat.repr
  | nat16 value => value.toNat.repr
  | nat32 value => value.toNat.repr
  | nat64 value => value.toNat.repr
  | float32 bits => Binary.single.text bits.toNat
  | float64 bits => Binary.double.text bits.toNat
  | string value => value
  | stamp value => value.text
  | span value => value.text

end Scalar

end GraphMarkup
