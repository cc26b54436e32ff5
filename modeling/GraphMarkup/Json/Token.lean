import GraphMarkup.Json.Numeral

/-!
# JSON tokens

* `JsonToken` : brackets, commas, colons, strings, and words, which are literals and numbers;
* `JsonToken.Mode`, `JsonToken.Scanner` : what has been read of the token at hand, and the tokens before it;
* `JsonToken.scan?` : the tokens of a text, character by character.

Words are as long as possible: two of them without anything in between are no JSON in any case.
-/

namespace GraphMarkup

/-- The tokens of JSON. -/
inductive JsonToken where
  | openArray
  | closeArray
  | openObject
  | closeObject
  | comma
  | colon
  | null
  | bool (value : Bool)
  | number (value : JsonNumber)
  | string (value : String)
  deriving DecidableEq, Repr

namespace JsonToken

/-- What has been read of a token, characters in reverse. In a string, `high` is the first half of a surrogate pair
whose second half has to follow at once. -/
inductive Mode where
  | between
  | word (chars : List Char)
  | string (chars : List Char) (high : Option Nat)
  | escape (chars : List Char) (high : Option Nat)
  | hex (chars : List Char) (high : Option Nat) (digits : List Nat)
  deriving DecidableEq, Repr

/-- The tokens read, in reverse, and what has been read of the next one. -/
structure Scanner where
  tokens : List JsonToken := []
  mode : Mode := .between
  deriving DecidableEq, Repr

def isBlank (c : Char) : Bool := c == ' ' || c == '\t' || c == '\n' || c == '\r'

def punctuation? : Char → Option JsonToken
  | '[' => some openArray
  | ']' => some closeArray
  | '{' => some openObject
  | '}' => some closeObject
  | ',' => some comma
  | ':' => some colon
  | _ => none

/-- The token that a word is. -/
def ofWord? (word : List Char) : Option JsonToken :=
  match String.ofList word with
  | "null" => some null
  | "true" => some (bool true)
  | "false" => some (bool false)
  | _ => do return number (← (← Numeral.ofWord? word).toNumber?)

def escape? : Char → Option Char
  | '"' => some '"'
  | '\\' => some '\\'
  | '/' => some '/'
  | 'b' => some '\x08'
  | 'f' => some '\x0c'
  | 'n' => some '\n'
  | 'r' => some '\r'
  | 't' => some '\t'
  | _ => none

def hexDigit? (c : Char) : Option Nat :=
  if c.isDigit then some (c.toNat - '0'.toNat)
  else if 'a' ≤ c ∧ c ≤ 'f' then some (c.toNat - 'a'.toNat + 10)
  else if 'A' ≤ c ∧ c ≤ 'F' then some (c.toNat - 'A'.toNat + 10)
  else none

def isHighSurrogate (code : Nat) : Bool := 0xD800 ≤ code && code < 0xDC00

def isLowSurrogate (code : Nat) : Bool := 0xDC00 ≤ code && code < 0xE000

/-- A string with one more code of four digits: a character, or one half of a surrogate pair. -/
def addCode? (chars : List Char) (high : Option Nat) (code : Nat) : Option Mode :=
  match high with
  | some high =>
    if isLowSurrogate code then
      some (.string (Char.ofNat (0x10000 + (high - 0xD800) * 0x400 + (code - 0xDC00)) :: chars) none)
    else none
  | none =>
    if isHighSurrogate code then some (.string chars (some code))
    else if isLowSurrogate code then none
    else some (.string (Char.ofNat code :: chars) none)

namespace Scanner

/-- Ends the word at hand, if there is one. A string may not end here. -/
def endWord? (s : Scanner) : Option Scanner :=
  match s.mode with
  | .between => some s
  | .word chars => do return { tokens := (← ofWord? chars.reverse) :: s.tokens, mode := .between }
  | _ => none

/-- Reads a character outside of strings. -/
def stepOutside (s : Scanner) (c : Char) : Option Scanner :=
  if isBlank c then s.endWord?
  else if c = '"' then do return { ← s.endWord? with mode := .string [] none }
  else
    match punctuation? c, s.mode with
    | some token, _ => do
      let s ← s.endWord?
      return { s with tokens := token :: s.tokens }
    | none, .word chars => some { s with mode := .word (c :: chars) }
    | none, _ => some { s with mode := .word [c] }

def step (s : Scanner) (c : Char) : Option Scanner :=
  match s.mode with
  | .between | .word _ => s.stepOutside c
  | .string chars none =>
    if c = '"' then some { tokens := .string (String.ofList chars.reverse) :: s.tokens, mode := .between }
    else if c = '\\' then some { s with mode := .escape chars none }
    else if c.toNat < 0x20 then none
    else some { s with mode := .string (c :: chars) none }
  | .string chars (some high) =>
    if c = '\\' then some { s with mode := .escape chars (some high) } else none
  | .escape chars high =>
    if c = 'u' then some { s with mode := .hex chars high [] }
    else
      match high, escape? c with
      | none, some char => some { s with mode := .string (char :: chars) none }
      | _, _ => none
  | .hex chars high digits => do
    let digits := digits ++ [← hexDigit? c]
    if digits.length = 4 then
      return { s with mode := ← addCode? chars high (digits.foldl (fun n d => n * 16 + d) 0) }
    else
      return { s with mode := .hex chars high digits }

end Scanner

def scan? (text : String) : Option (List JsonToken) := do
  let scanner ← text.toList.foldlM Scanner.step {}
  return (← scanner.endWord?).tokens.reverse

end JsonToken

end GraphMarkup
