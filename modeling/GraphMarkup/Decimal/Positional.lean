import GraphMarkup.Decimal.Shortest

/-!
# Decimals in positional notation

* `Decimal.positional` : a decimal written with all its places and never with an exponent;
* `padded` : a whole number with leading zeros up to a width;
* `Binary.Format.text` : the text of a bit pattern, with the fewest digits that read back.
-/

namespace GraphMarkup

/-- A whole number in decimal, filled up with leading zeros to at least `width` places. -/
def padded (width n : Nat) : String :=
  String.ofList (List.leftpad width '0' (Nat.toDigits 10 n))

namespace Decimal

/-- The digits with the point where the exponent puts it: zeros are added at the end for a positive exponent and
between the point and the digits for a small number, and a whole number has no point. -/
def positional (d : Decimal) : String :=
  let digits := Nat.toDigits 10 d.coefficient
  if 0 ≤ d.exponent then
    String.ofList (digits ++ List.replicate d.exponent.toNat '0')
  else
    let places := (-d.exponent).toNat
    let digits := List.leftpad (places + 1) '0' digits
    let whole := digits.length - places
    String.ofList (digits.take whole ++ '.' :: digits.drop whole)

end Decimal

namespace Binary.Format

def signed (negative : Bool) (text : String) : String :=
  if negative then "-" ++ text else text

/-- The text of a bit pattern. What is not a number has no sign; zero keeps its own. -/
def text (f : Format) (bits : Nat) : String :=
  match f.decode bits with
  | .nan => "NaN"
  | .infinite negative => signed negative "inf"
  | .finite negative significand exponent narrowBelow =>
    signed negative <|
      if significand = 0 then "0"
      else (Decimal.Interval.around significand exponent narrowBelow).shortest.positional

end Binary.Format

end GraphMarkup
