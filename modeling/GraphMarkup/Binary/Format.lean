/-!
# Binary floating-point formats

* `Format` : the widths of the fraction and exponent fields; `single` and `double` are the two in use;
* `Number`, `Format.decode` : a bit pattern read as a signed significand times a power of two;
* `Format.nearest` : the bit pattern of the number nearest to a quotient, a half going to the even neighbour;
* `Format.product`, `Format.quotient` : arithmetic that is exact up to one rounding.
-/

namespace GraphMarkup.Binary

/-- A binary interchange format: a sign bit, an exponent field and a fraction field. -/
structure Format where
  fractionBits : Nat
  exponentBits : Nat
  deriving DecidableEq, Repr

def single : Format := ⟨23, 8⟩

def double : Format := ⟨52, 11⟩

/-- What a bit pattern stands for. A finite number is `± significand · 2 ^ exponent`; it is `narrowBelow` when its
fraction field is zero, so that the next smaller number is only half as far away as the next larger one. -/
inductive Number where
  | nan
  | infinite (negative : Bool)
  | finite (negative : Bool) (significand : Nat) (exponent : Int) (narrowBelow : Bool)
  deriving DecidableEq, Repr

namespace Format

/-- The number of values of the fraction field. -/
def fractions (f : Format) : Nat := Nat.pow 2 f.fractionBits

/-- The exponent field of infinities and of what is not a number. -/
def specialField (f : Format) : Nat := Nat.pow 2 f.exponentBits - 1

/-- The weight of the last fraction bit in the smallest numbers, as a power of two. -/
def leastExponent (f : Format) : Int := 2 - Nat.pow 2 (f.exponentBits - 1) - f.fractionBits

def infinity (f : Format) : Nat := f.specialField * f.fractions

def signBit (f : Format) : Nat := Nat.pow 2 (f.fractionBits + f.exponentBits)

def decode (f : Format) (bits : Nat) : Number :=
  let fraction := bits % f.fractions
  let field := bits / f.fractions % Nat.pow 2 f.exponentBits
  let negative := bits / f.signBit % 2 == 1
  if field = f.specialField then
    if fraction = 0 then .infinite negative else .nan
  else if field = 0 then
    .finite negative fraction f.leastExponent false
  else
    .finite negative (f.fractions + fraction) (f.leastExponent + (field - 1 : Nat)) (fraction == 0)

/-- The whole number nearest to `num / den`, a half going to the even neighbour. -/
def roundHalfEven (num den : Nat) : Nat :=
  let below := num / den
  let rest := num % den
  if 2 * rest < den ∨ (2 * rest = den ∧ below % 2 = 0) then below else below + 1

/-- The greatest `e` with `2 ^ e ≤ num / den`, for positive `num` and `den`. -/
def floorLog2 (num den : Nat) : Int :=
  let guess : Int := num.log2 - den.log2
  if num * Nat.pow 2 (-guess).toNat < den * Nat.pow 2 guess.toNat then guess - 1 else guess

/-- The bit pattern of the positive number nearest to `num / den`; past the largest finite number it is infinity.
A significand that rounds up to the next power of two carries into the exponent field by itself. -/
def nearest (f : Format) (num den : Nat) : Nat :=
  if num = 0 then 0
  else
    let exponent := max f.leastExponent (floorLog2 num den - f.fractionBits)
    let significand := roundHalfEven (num * Nat.pow 2 (-exponent).toNat) (den * Nat.pow 2 exponent.toNat)
    min f.infinity ((exponent - f.leastExponent).toNat * f.fractions + significand)

/-- The value of the bit pattern of a finite number without sign, as a quotient. -/
def ratio (f : Format) (bits : Nat) : Nat × Nat :=
  match f.decode bits with
  | .finite _ significand exponent _ => (significand * Nat.pow 2 exponent.toNat, Nat.pow 2 (-exponent).toNat)
  | _ => (0, 1)

/-- The number nearest to the product of two finite numbers without sign. -/
def product (f : Format) (a b : Nat) : Nat :=
  let (numA, denA) := f.ratio a
  let (numB, denB) := f.ratio b
  f.nearest (numA * numB) (denA * denB)

/-- The number nearest to the quotient of two finite numbers without sign, of which the second is not zero. -/
def quotient (f : Format) (a b : Nat) : Nat :=
  let (numA, denA) := f.ratio a
  let (numB, denB) := f.ratio b
  f.nearest (numA * denB) (denA * numB)

end Format

end GraphMarkup.Binary
