import Intendant.Decimal.Shortest

/-! # Layouts of decimal text

A number is written either positionally or with an exponent. A `Layout` holds the decisions of one
format; `Layout.text` writes a double in it. `fixed` writes a double with a set number of places. -/

namespace Intendant.Decimal

/-- The decisions of one format for doubles. The point of a decimal stands `k` digits to the right of the
    start of its digits. -/
structure Layout where
  /-- The least `k` that is written positionally. -/
  pointMin : Int
  /-- The greatest `k` that is written positionally. -/
  pointMax : Int
  /-- Whether a non-negative exponent carries a plus sign. -/
  plus : Bool
  /-- Which of two equally near decimals is written. -/
  tie : Tie
  /-- The texts of the values that have no digits. -/
  notANumber : List Char
  infinite : List Char
  negativeInfinite : List Char

/-- The decimal digits of a number, the first one not a zero unless it is the only one. -/
def digits (n : Nat) : List Char := Nat.toDigits 10 n

/-- Digits with the point `k` digits after their start, at least one digit on each side of it. -/
def positional (ds : List Char) (k : Int) : List Char :=
  if k ≤ 0 then ['0', '.'] ++ List.replicate (-k).toNat '0' ++ ds
  else if ds.length ≤ k.toNat then ds ++ List.replicate (k.toNat - ds.length) '0' ++ ['.', '0']
  else ds.take k.toNat ++ '.' :: ds.drop k.toNat

/-- An exponent with its sign, a plus only where the layout asks for it. -/
def exponentText (plus : Bool) (e : Int) : List Char :=
  (if e < 0 then ['-'] else if plus then ['+'] else []) ++ digits e.natAbs

/-- Digits in exponent form: the point stands after the first digit, unless that is the only one. -/
def scientific (plus : Bool) (ds : List Char) (k : Int) : List Char :=
  let e := exponentText plus (k - 1)
  match ds with
  | [] => '0' :: 'e' :: e
  | [d] => d :: 'e' :: e
  | d :: rest => d :: '.' :: rest ++ 'e' :: e

/-- A magnitude in a layout, positional or scientific by where its point stands. -/
def Layout.magnitude (l : Layout) (s : Scaled) : List Char :=
  if s.coefficient = 0 then ['0', '.', '0']
  else
    let ds := digits s.coefficient
    let k := s.exponent + ds.length
    if l.pointMin ≤ k ∧ k ≤ l.pointMax then positional ds k else scientific l.plus ds k

/-- The text of a double. The sign of zero is kept. -/
def Layout.text (l : Layout) (x : Float) : List Char :=
  if x.isNaN then l.notANumber
  else if x.isInf then if isNegative x then l.negativeInfinite else l.infinite
  else (if isNegative x then ['-'] else []) ++ l.magnitude (shortest l.tie x)

/-- The quotient `n / d` rounded to the nearest natural number, a half to the even one. -/
def roundHalfEven (n d : Nat) : Nat :=
  let q := n / d
  let r := 2 * (n % d)
  if r < d then q else if d < r then q + 1 else if q % 2 = 0 then q else q + 1

/-- A double with `places` digits after the point, rounded from its exact value, a half to the even
    neighbour. -/
def fixed (places : Nat) (x : Float) : List Char :=
  if x.isNaN then ['N', 'a', 'N']
  else
    let sign := if isNegative x then ['-'] else []
    if x.isInf then sign ++ ['i', 'n', 'f']
    else
      let d := Dyadic.ofFloat x
      let r := ratio d.mantissa d.exponent (-(places : Int))
      let n := roundHalfEven r.1 r.2
      let ds := digits (n % Nat.pow 10 places)
      sign ++ digits (n / Nat.pow 10 places) ++
        if places = 0 then [] else '.' :: (List.replicate (places - ds.length) '0' ++ ds)

end Intendant.Decimal
