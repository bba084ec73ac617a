import Intendant.Json.Value

/-! # Number literals

An integer literal that fits 64 bits is that integer. Any other literal is read as a double, and to which one
it is rounded is left to a `Reading`. `Reading.scaled` takes in as many digits as fit 64 bits and then scales by
powers of ten, each time with a rounding, so that it may miss the nearest double by a little. -/

namespace Intendant.Json

namespace Token

/-- A number literal. -/
structure Literal where
  negative : Bool
  whole : List Char
  fraction : List Char
  /-- The sign and the digits of the exponent. -/
  exponent : Option (Bool × List Char)
deriving DecidableEq

/-- The number that digits stand for. -/
def digitsValue (ds : List Char) : Nat := Nat.ofDigitChars 10 ds 0

/-- The exponent of a literal, which is zero where none is written. -/
def Literal.power (l : Literal) : Int :=
  match l.exponent with
  | none => 0
  | some (negative, ds) => if negative then -(digitsValue ds : Int) else digitsValue ds

end Token

/-- How literals are read as doubles. -/
class Reading where
  /-- The double that a literal is read as, if it is read. -/
  double? : Token.Literal → Option Float
  isFinite_of_double? : ∀ {l : Token.Literal} {x : Float}, double? l = some x → x.isFinite = true

namespace Reading

/-- A double, unless it is infinite or no number. -/
def finite? (x : Float) : Option Float := if x.isFinite then some x else none

theorem isFinite_of_finite? {x y : Float} (h : finite? x = some y) : y.isFinite = true := by
  unfold finite? at h
  split at h
  · cases h
    assumption
  · cases h

/-- The digits of a literal, as far as they are taken in, and the power of ten that they are scaled by. -/
structure Significand where
  digits : Nat
  power : Int

namespace Significand

/-- A further digit behind others, if the number that they stand for then fits 64 bits. -/
def push? (n : Nat) (digit : Char) : Option Nat :=
  let longer := 10 * n + (digit.toNat - '0'.toNat)
  if longer < 18446744073709551616 then some longer else none

/-- Takes in the digits before the point. From the first one that does not fit, they count in the power only. -/
def ofWhole : List Char → Nat → Significand
  | [], n => ⟨n, 0⟩
  | d :: ds, n =>
    match push? n d with
    | some longer => ofWhole ds longer
    | none => ⟨n, ds.length + 1⟩

/-- Takes in the digits behind the point. From the first one that does not fit, they are passed over. -/
def withFraction (s : Significand) : List Char → Significand
  | [] => s
  | d :: ds =>
    match push? s.digits d with
    | some longer => withFraction ⟨longer, s.power - 1⟩ ds
    | none => s

end Significand

/-- A power of ten as a double. -/
def powerOfTen (n : Nat) : Float := Float.ofScientific 1 false n

/-- A double divided by a power of ten, which is split up into factors that are doubles. -/
def lowered : (factors : Nat) → (x : Float) → (power : Nat) → Float
  | 0, x, power => x / powerOfTen power
  | factors + 1, x, power => if x == 0.0 then x else lowered factors (x / powerOfTen 308) (power - 308)

/-- A double times a power of ten. Beyond the powers that are doubles only zero has such a product. -/
def scale? (x : Float) (power : Int) : Option Float :=
  if power < 0 then some (lowered ((power.natAbs - 1) / 308) x power.natAbs)
  else if power ≤ 308 then some (x * powerOfTen power.natAbs)
  else if x == 0.0 then some x
  else none

/-- The reading that scales the digits by powers of ten. -/
@[reducible]
def scaled : Reading where
  double? l :=
    let s := (Significand.ofWhole l.whole 0).withFraction l.fraction
    (scale? (Float.ofNat s.digits) (s.power + l.power)).bind fun x => finite? (if l.negative then -x else x)
  isFinite_of_double? h := by
    obtain ⟨x, -, hx⟩ := Option.bind_eq_some_iff.mp h
    exact isFinite_of_finite? hx

end Reading

/-- The number that a literal denotes. Negative zero is a double, and so is an integer beyond 64 bits. -/
def Token.Literal.value? [Reading] (l : Literal) : Option Number :=
  let n := digitsValue l.whole
  if l.fraction = [] ∧ l.exponent = none ∧ (if l.negative then 0 < n ∧ n ≤ Nat.pow 2 63 else n < Nat.pow 2 64) then
    some (.int (if l.negative then -(n : Int) else n))
  else (Reading.double? l).map .real

end Intendant.Json
