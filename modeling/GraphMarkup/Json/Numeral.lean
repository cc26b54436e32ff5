import GraphMarkup.Binary.Format

/-!
# JSON numbers

* `Numeral` : the parts of a written number, and `Numeral.ofWord?` reads them;
* `JsonNumber` : whole numbers that fit 64 bits, and floating-point numbers by their bit patterns;
* `Numeral.toNumber?` : the number that is meant, unless it is too large.

A number without fraction and exponent stays whole if it fits. Any other is made of as many leading digits as fit
64 bits and a power of ten, which is multiplied in or divided out in steps of at most `10 ^ 308`, each rounded.
-/

namespace GraphMarkup

/-- The parts of a written number: digits are numbers below ten, and an exponent has a sign of its own. -/
structure Numeral where
  negative : Bool
  whole : List Nat
  fraction : Option (List Nat)
  exponent : Option (Bool × List Nat)
  deriving DecidableEq, Repr

/-- A number: whole, or floating-point in 64 bits. -/
inductive JsonNumber where
  | integer (value : Int)
  | real (bits : UInt64)
  deriving DecidableEq, Repr

namespace Numeral

/-! ## Reading -/

/-- The digits at the front of some characters, and what follows them. -/
def digits (cs : List Char) : List Nat × List Char :=
  ((cs.takeWhile Char.isDigit).map fun c => c.toNat - '0'.toNat, cs.dropWhile Char.isDigit)

/-- A sign in front of some characters: whether it is a minus, and what follows it. -/
def sign (cs : List Char) : Bool × List Char :=
  match cs with
  | '-' :: rest => (true, rest)
  | '+' :: rest => (false, rest)
  | _ => (false, cs)

/-- Whether digits form a whole part: there are some, and zero stands at their front only by itself. -/
def isWhole (ds : List Nat) : Bool := !ds.isEmpty && (ds.length == 1 || ds.head? != some 0)

/-- Reads a number that takes up all of a word. -/
def ofWord? (word : List Char) : Option Numeral := do
  let (negative, rest) := match word with
    | '-' :: rest => (true, rest)
    | _ => (false, word)
  let (whole, rest) := digits rest
  guard (isWhole whole)
  let (fraction, rest) := match rest with
    | '.' :: rest => let (ds, rest) := digits rest; (some ds, rest)
    | _ => (none, rest)
  guard (fraction != some [])
  let (exponent, rest) := match rest with
    | 'e' :: rest | 'E' :: rest =>
      let (negative, rest) := sign rest
      let (ds, rest) := digits rest
      (some (negative, ds), rest)
    | _ => (none, rest)
  guard ((exponent.map Prod.snd) != some [] && rest.isEmpty)
  return { negative, whole, fraction, exponent }

/-! ## Meaning -/

/-- Adds digits to the end of a number while it fits 64 bits; the answer holds those that are left. -/
def absorb : Nat → List Nat → Nat × List Nat
  | significand, [] => (significand, [])
  | significand, d :: ds =>
    if significand * 10 + d < Nat.pow 2 64 then absorb (significand * 10 + d) ds else (significand, d :: ds)

def ofDigits (ds : List Nat) : Nat := ds.foldl (fun n d => n * 10 + d) 0

def stepLimit : Nat := 308

/-- A floating-point number without sign times a power of ten, unless it is too large. -/
def scale? (bits : Nat) (exponent : Int) : Option Nat :=
  if exponent.natAbs ≤ stepLimit then
    let power := Binary.double.nearest (Nat.pow 10 exponent.natAbs) 1
    if exponent < 0 then some (Binary.double.quotient bits power)
    else
      let scaled := Binary.double.product bits power
      if scaled = Binary.double.infinity then none else some scaled
  else if bits = 0 then some 0
  else if 0 ≤ exponent then none
  else scale? (Binary.double.quotient bits (Binary.double.nearest (Nat.pow 10 stepLimit) 1)) (exponent + stepLimit)
termination_by (-exponent).toNat
decreasing_by
  unfold stepLimit
  omega

/-- The exponent, unless its digits exceed 31 bits. -/
def exponent? (n : Numeral) : Option Int :=
  match n.exponent with
  | none => some 0
  | some (negative, ds) =>
    if Nat.pow 2 31 ≤ ofDigits ds then none
    else some (if negative then -(ofDigits ds : Int) else ofDigits ds)

/-- The significand and its power of ten, before the exponent: of the whole part, digits that do not fit count as
places; of the fraction, those that do not fit are dropped. -/
def significand (n : Numeral) : Nat × Int :=
  let (whole, skipped) := absorb 0 n.whole
  let fraction := n.fraction.getD []
  let (all, dropped) := absorb whole fraction
  (all, (skipped.length : Int) - (fraction.length - dropped.length : Nat))

/-- The size of a floating-point number. An exponent too long for 31 bits leaves nothing of the number if it is
negative, and nothing of zero in any case. -/
def magnitude? (n : Numeral) : Option Nat :=
  let (significand, places) := n.significand
  match n.exponent? with
  | some exponent => scale? (Binary.double.nearest significand 1) (places + exponent)
  | none =>
    if significand = 0 ∨ (n.exponent.map Prod.fst) = some true then some 0 else none

def real (negative : Bool) (magnitude : Nat) : JsonNumber :=
  .real (UInt64.ofNat (magnitude + (if negative then Binary.double.signBit else 0)))

/-- Whether a number is whole and fits 64 bits, with a sign if it is negative. Minus zero is not whole. -/
def integer? (n : Numeral) : Option Int :=
  if n.fraction.isNone && n.exponent.isNone then
    let size := ofDigits n.whole
    if n.negative then
      if 0 < size ∧ size ≤ Nat.pow 2 63 then some (-(size : Int)) else none
    else if size < Nat.pow 2 64 then some size else none
  else none

/-- The number that is meant, unless it is too large. -/
def toNumber? (n : Numeral) : Option JsonNumber :=
  match n.integer? with
  | some value => some (.integer value)
  | none => n.magnitude?.map (real n.negative)

end Numeral

end GraphMarkup
