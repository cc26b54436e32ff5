import GraphMarkup.Error

/-!
# Escaping character data

* `isXmlChar` : the characters that XML 1.0 can carry, escaped or not;
* `Place` : where character data stands;
* `reference?` : the reference that stands for a character at a place;
* `isReserved` : the characters for which data has to be rewritten at all;
* `escape` : character data made fit for its place, or refused for the first character that XML cannot carry.

A carriage return is always escaped, since a reader would turn it into a line feed; line feeds and tabs are escaped
where a reader would turn them into spaces.
-/

namespace GraphMarkup.Markup

/-- The characters that XML 1.0 can carry, escaped or not. -/
def isXmlChar (c : Char) : Bool :=
  c == '\t' || c == '\n' || c == '\r' || (0x20 ≤ c.toNat && c.toNat ≤ 0xD7FF)
    || (0xE000 ≤ c.toNat && c.toNat ≤ 0xFFFD) || 0x10000 ≤ c.toNat

/-- Where character data stands: between tags, or between the quotes of an attribute. -/
inductive Place where
  | content
  | attrValue
  deriving DecidableEq, Repr

/-- The reference that stands for a character which may not appear as it is. -/
def reference? (place : Place) (c : Char) : Option String :=
  match c, place with
  | '&', _ => some "&amp;"
  | '<', _ => some "&lt;"
  | '>', _ => some "&gt;"
  | '\r', _ => some "&#xD;"
  | '"', .attrValue => some "&quot;"
  | '\n', .attrValue => some "&#xA;"
  | '\t', .attrValue => some "&#x9;"
  | _, _ => none

def escapeChar (place : Place) (c : Char) : List Char :=
  match reference? place c with
  | some reference => reference.toList
  | none => [c]

def isReserved (place : Place) (c : Char) : Bool :=
  match c with
  | '&' | '<' | '>' | '\r' => true
  | '"' | '\n' | '\t' => place == .attrValue
  | _ => false

/-- Character data as it is written at a place. Data in which nothing is reserved is handed on as it is. -/
def escape (place : Place) (text : String) : Except WriterFault String :=
  match text.toList.find? fun c => !isXmlChar c with
  | some c => .error (.forbiddenChar c)
  | none =>
    if text.toList.any (isReserved place) then .ok (String.ofList (text.toList.flatMap (escapeChar place)))
    else .ok text

end GraphMarkup.Markup
