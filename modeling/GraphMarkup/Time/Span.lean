import GraphMarkup.Time.Stamp

/-!
# Lengths of time

* `Span` : whole seconds, rounded down, and the nanoseconds above them;
* `Span.text` : the ISO 8601 form in seconds alone.
-/

namespace GraphMarkup.Time

/-- A length of time of `seconds` and, always added, less than a second of `nanos`. -/
structure Span where
  seconds : Int
  nanos : Nat
  deriving DecidableEq, Repr

namespace Span

/-- The whole seconds and the nanoseconds of a span without its sign. -/
def magnitude (s : Span) : Nat × Nat :=
  if s.seconds < 0 ∧ s.nanos ≠ 0 then ((-(s.seconds + 1)).toNat, nanosPerSecond - s.nanos)
  else (s.seconds.natAbs, s.nanos)

/-- The places of a second without the zeros at their end. -/
def fractionText (nanos : Nat) : String :=
  if nanos = 0 then ""
  else "." ++ String.ofList ((padded 9 nanos).toList.reverse.dropWhile (· == '0')).reverse

/-- The ISO 8601 form: `P0D` for nothing at all, else seconds behind the sign. -/
def text (s : Span) : String :=
  if s.seconds = 0 ∧ s.nanos = 0 then "P0D"
  else
    let (seconds, nanos) := s.magnitude
    (if s.seconds < 0 then "-" else "") ++ "PT" ++ Nat.repr seconds ++ fractionText nanos ++ "S"

end Span

end GraphMarkup.Time
