/-! # The fewest digits that read back

Every double stands for the interval of reals that round to it. `shortest` picks, among the decimals in
that interval, one with the fewest digits and of those the nearest. All arithmetic is exact arithmetic of
natural numbers on the bits of the double. -/

namespace Intendant.Decimal

/-- The magnitude of a finite double, `mantissa * 2 ^ exponent`. -/
structure Dyadic where
  mantissa : Nat
  exponent : Int
  /-- The gap to the next smaller double is half the gap to the next larger one. -/
  narrowBelow : Bool

/-- A decimal magnitude, `coefficient * 10 ^ exponent`. -/
structure Scaled where
  coefficient : Nat
  exponent : Int
deriving DecidableEq, Repr

/-- Which of two equally near decimals is taken. -/
inductive Tie where
  | even
  | up
deriving DecidableEq, Repr

/-- The fraction bits of a double. -/
def fractionBits (x : Float) : Nat := x.toBits.toNat % Nat.pow 2 52

/-- The eleven bits of a double that hold its exponent. -/
def exponentBits (x : Float) : Nat := x.toBits.toNat / Nat.pow 2 52 % Nat.pow 2 11

/-- Whether the sign bit of a double is set. -/
def isNegative (x : Float) : Bool := x.toBits.toNat / Nat.pow 2 63 % 2 = 1

/-- The magnitude of a finite double. Below the normal range the leading bit is not implied. -/
def Dyadic.ofFloat (x : Float) : Dyadic :=
  if exponentBits x = 0 then ⟨fractionBits x, -1074, false⟩
  else ⟨fractionBits x + Nat.pow 2 52, exponentBits x - 1075, fractionBits x = 0 && 1 < exponentBits x⟩

/-- The numerator and the denominator of `m * 2 ^ q / 10 ^ p`. -/
def ratio (m : Nat) (q p : Int) : Nat × Nat :=
  (m * Nat.pow 2 q.toNat * Nat.pow 10 (-p).toNat, Nat.pow 2 (-q).toNat * Nat.pow 10 p.toNat)

/-- Whether `c * 10 ^ p` rounds to the double. The ends of the interval belong to it when the mantissa is
    even. -/
def Dyadic.readsBack (d : Dyadic) (c : Nat) (p : Int) : Bool :=
  let low := ratio (4 * d.mantissa - if d.narrowBelow then 1 else 2) (d.exponent - 2) p
  let high := ratio (4 * d.mantissa + 2) (d.exponent - 2) p
  if d.mantissa % 2 = 0 then low.1 ≤ c * low.2 && c * high.2 ≤ high.1
  else low.1 < c * low.2 && c * high.2 < high.1

/-- The least `k` with `m * 2 ^ q < 10 ^ k`, for a positive `m`. The binary logarithm gives `k` up to one. -/
def Dyadic.scale (d : Dyadic) : Int :=
  let guess := Int.fdiv ((d.exponent + d.mantissa.log2) * 30103) 100000 - 1
  let fits (k : Int) : Bool := let r := ratio d.mantissa d.exponent k; r.1 < r.2
  if fits guess then guess
  else if fits (guess + 1) then guess + 1
  else if fits (guess + 2) then guess + 2
  else guess + 3

/-- The decimal on the grid `10 ^ p` that reads back, if there is one: the neighbours of the value on the
    grid are tried, and of two the nearer one is taken. -/
def Dyadic.onGrid? (d : Dyadic) (tie : Tie) (p : Int) : Option Nat :=
  let r := ratio d.mantissa d.exponent p
  let c := r.1 / r.2
  match d.readsBack c p, d.readsBack (c + 1) p with
  | false, false => none
  | true, false => some c
  | false, true => some (c + 1)
  | true, true =>
    if 2 * r.1 < (2 * c + 1) * r.2 then some c
    else if (2 * c + 1) * r.2 < 2 * r.1 then some (c + 1)
    else match tie with
      | .up => some (c + 1)
      | .even => some (if c % 2 = 0 then c else c + 1)

/-- Moves trailing zeros of the coefficient into the exponent. -/
def strip : Nat → Nat → Int → Scaled
  | 0, c, p => ⟨c, p⟩
  | fuel + 1, c, p => if c ≠ 0 ∧ c % 10 = 0 then strip fuel (c / 10) (p + 1) else ⟨c, p⟩

/-- The exact value of a dyadic as a decimal. -/
def Dyadic.exact (d : Dyadic) : Scaled :=
  ⟨d.mantissa * Nat.pow 2 d.exponent.toNat * Nat.pow 5 (-d.exponent).toNat, if d.exponent < 0 then d.exponent else 0⟩

/-- The shortest decimal that reads back to the magnitude of a finite double. Seventeen digits always
    suffice. -/
def shortest (tie : Tie) (x : Float) : Scaled :=
  let d := Dyadic.ofFloat x
  if d.mantissa = 0 then ⟨0, 0⟩
  else
    let k := d.scale
    let hit := (List.range 17).findSome? fun (n : Nat) =>
      (d.onGrid? tie (k - n - 1)).map fun c => (c, k - n - 1)
    match hit with
    | some (c, p) => strip 20 c p
    | none => d.exact

end Intendant.Decimal
