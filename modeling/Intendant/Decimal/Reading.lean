/-! # Reading decimals

The double nearest to a decimal. -/

namespace Intendant.Decimal

/-- The number of decimal digits of a natural number. -/
def digitCount (n : Nat) : Nat := (Nat.toDigits 10 n).length

/-- The double nearest to `coefficient * 10 ^ exponent`, which may be infinite. Magnitudes far outside the
    range of doubles are settled by their size alone. -/
def nearest (coefficient : Nat) (exponent : Int) : Float :=
  if coefficient = 0 then 0.0
  else
    let size := exponent + digitCount coefficient
    if size > 400 then 1.0 / 0.0
    else if size < -400 then 0.0
    else if exponent < 0 then Float.ofScientific coefficient true exponent.natAbs
    else Float.ofScientific coefficient false exponent.natAbs

end Intendant.Decimal
