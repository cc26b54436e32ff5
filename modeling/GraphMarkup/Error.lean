/-!
# Errors

* `ConfigurationFault`, `WriterFault`, `ConversionFault` : what is wrong with a policy, with a call on a writer and with
  a value under conversion;
* `Error` : every way in which a serialization can fail, with its `message`;
* `Error.isFatal` : the errors that abort the item at hand; the others are mended where they arise.
-/

namespace GraphMarkup

/-- What a policy may not say. -/
inductive ConfigurationFault where
  | depthTooSmall (depth : Nat)
  | emptyName (field : String)
  | sameKeyAndValue (name : String)
  | other (text : String)
  deriving DecidableEq, Repr

/-- Why a writer refuses a call. -/
inductive WriterFault where
  | emptyTag
  | strayAttribute (name : String)
  | strayText
  | strayClose
  | unclosed (tag : String)
  | lateDeclaration
  | forbiddenChar (char : Char)
  | other (text : String)
  deriving DecidableEq, Repr

/-- Why something cannot be made into a value. -/
inductive ConversionFault where
  | unsupported (typeName : String)
  | valueWithoutKey
  | keyWithoutValue
  | other (text : String)
  deriving DecidableEq, Repr

/-- The ways in which a serialization fails. -/
inductive Error where
  | configuration (fault : ConfigurationFault)
  | propertyFetch (property reason : String)
  | enumeration (reason : String)
  | stringConversion (reason : String)
  | cancelled
  | writer (fault : WriterFault)
  | sessionPoisoned
  | conversion (fault : ConversionFault)
  deriving DecidableEq, Repr

def ConfigurationFault.message : ConfigurationFault → String
  | depthTooSmall depth => "serialization depth must be at least 1, got " ++ depth.repr
  | emptyName field => "element name `" ++ field ++ "` must not be empty"
  | sameKeyAndValue name => "dictionary key and value names must differ, both are `" ++ name ++ "`"
  | other text => text

/-- A code point in hexadecimal, with at least four digits. -/
def codePointText (char : Char) : String :=
  String.ofList (List.leftpad 4 '0' ((Nat.toDigits 16 char.toNat).map Char.toUpper))

def WriterFault.message : WriterFault → String
  | emptyTag => "element tag must not be empty"
  | strayAttribute name => "attribute `" ++ name ++ "` written outside of a start tag"
  | strayText => "text outside of any element"
  | strayClose => "no open element to close"
  | unclosed tag => "element `" ++ tag ++ "` was never closed"
  | lateDeclaration => "declaration must precede all elements"
  | forbiddenChar char => "character U+" ++ codePointText char ++ " is not allowed in XML"
  | other text => text

def ConversionFault.message : ConversionFault → String
  | unsupported typeName => typeName ++ " is not supported"
  | valueWithoutKey => "map value without a key"
  | keyWithoutValue => "map key without a value"
  | other text => text

namespace Error

def message : Error → String
  | configuration fault => "invalid configuration: " ++ fault.message
  | propertyFetch property reason => "could not fetch property `" ++ property ++ "`: " ++ reason
  | enumeration reason => "enumeration failed: " ++ reason
  | stringConversion reason => "string conversion failed: " ++ reason
  | cancelled => "the serialization was stopped"
  | writer fault => "output writer failed: " ++ fault.message
  | sessionPoisoned => "session cannot be used after a failed item"
  | conversion fault => "error serializing: " ++ fault.message

/-- Whether an error aborts the item at hand. -/
def isFatal : Error → Bool
  | propertyFetch .. | enumeration _ | stringConversion _ => false
  | _ => true

end Error

end GraphMarkup
