/-! # Durations

A duration is written in the largest unit that it fills at least once, with as many decimal places as it
needs. -/

namespace Intendant.Text

/-- A fraction of a unit in decimal places, without trailing zeros. -/
def places (width n : Nat) : String :=
  let ds := Nat.toDigits 10 n
  let padded := List.replicate (width - ds.length) '0' ++ ds
  String.ofList (padded.reverse.dropWhile (· = '0')).reverse

/-- A number of nanoseconds in a unit of `10 ^ width` nanoseconds. -/
def inUnit (nanoseconds width : Nat) (unit : String) : String :=
  let fraction := nanoseconds % Nat.pow 10 width
  let whole := toString (nanoseconds / Nat.pow 10 width)
  if fraction = 0 then whole ++ unit else whole ++ "." ++ places width fraction ++ unit

/-- A duration as a text, in the largest unit of which it has at least one. -/
def duration (nanoseconds : Nat) : String :=
  if 1000000000 ≤ nanoseconds then inUnit nanoseconds 9 "s"
  else if 1000000 ≤ nanoseconds then inUnit nanoseconds 6 "ms"
  else if 1000 ≤ nanoseconds then inUnit nanoseconds 3 "µs"
  else toString nanoseconds ++ "ns"

end Intendant.Text
