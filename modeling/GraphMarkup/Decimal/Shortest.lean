import GraphMarkup.Binary.Format

/-!
# The shortest decimal that reads back

* `Decimal` : a coefficient times a power of ten;
* `Interval` : the decimals that read back as one binary number, and the number itself, as multiples of one unit;
* `Interval.shortest` : a decimal of the interval with the fewest digits, and of those the one nearest to the number.

On every grid of multiples of a power of ten only the two neighbours of the number have to be tried: if any point of
the grid lies in the interval, so does one of them. The coarsest grid with a hit has the fewest digits.
-/

namespace GraphMarkup

/-- The number `coefficient · 10 ^ exponent`. -/
structure Decimal where
  coefficient : Nat
  exponent : Int
  deriving DecidableEq, Repr

namespace Decimal

/-- The rounding interval of a positive binary number: `low`, `centre` and `high` count units of `2 ^ exponent`, and
the ends belong to it when it is `closed`. -/
structure Interval where
  low : Nat
  centre : Nat
  high : Nat
  exponent : Int
  closed : Bool
  deriving DecidableEq, Repr

namespace Interval

/-- The numbers that round to `significand · 2 ^ exponent`. Half the distance to the next number counts as two quarter
steps, and only one below a number whose smaller neighbour is closer; ties read back as the even significand. -/
def around (significand : Nat) (exponent : Int) (narrowBelow : Bool) : Interval where
  low := 4 * significand - (if narrowBelow then 1 else 2)
  centre := 4 * significand
  high := 4 * significand + 2
  exponent := exponent - 2
  closed := significand % 2 == 0

/-- One step of the grid of multiples of `10 ^ k`, as the quotient of the first by the second number of units. -/
def gridStep (i : Interval) (k : Int) : Nat × Nat :=
  (Nat.pow 10 k.toNat * Nat.pow 2 (-i.exponent).toNat, Nat.pow 10 (-k).toNat * Nat.pow 2 i.exponent.toNat)

def contains (i : Interval) (count num den : Nat) : Bool :=
  if i.closed then i.low * den ≤ count * num && count * num ≤ i.high * den
  else i.low * den < count * num && count * num < i.high * den

/-- The multiple of `10 ^ k` in the interval that is nearest to its centre, the larger of two equally near. -/
def onGrid? (i : Interval) (k : Int) : Option Decimal :=
  let (num, den) := i.gridStep k
  let below := i.centre * den / num
  let takeBelow := i.contains below num den
  let takeAbove := i.contains (below + 1) num den
  let belowIsNearer := 2 * (i.centre * den % num) < num
  if takeBelow && (!takeAbove || belowIsNearer) then some ⟨below, k⟩
  else if takeAbove then some ⟨below + 1, k⟩
  else none

/-- An exponent of ten that is above the centre and less than a thousand times too large. -/
def topExponent (i : Interval) : Int :=
  let num := i.centre * Nat.pow 2 i.exponent.toNat
  let den := Nat.pow 2 (-i.exponent).toNat
  if den ≤ num then (Nat.toDigits 10 (num / den)).length
  else 2 - ((Nat.toDigits 10 (den / num)).length : Int)

/-- The number of grids tried: seventeen digits tell any two numbers of the widest format in use apart, and the first
grids may be too coarse. -/
def gridCount : Nat := 24

/-- The first hit on the grids from the coarsest to the finest. -/
def shortest (i : Interval) : Decimal :=
  ((List.range gridCount).findSome? fun (n : Nat) => i.onGrid? (i.topExponent - n)).getD ⟨0, 0⟩

end Interval

end Decimal

end GraphMarkup
