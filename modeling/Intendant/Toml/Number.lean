import Intendant.Decimal.Reading
import Intendant.Json.Value
import Intendant.Text.Hex

/-! # Numbers and dates in TOML

Integers have 64 bits and may be written in base ten, sixteen, eight or two; digits may be separated by
single underscores. A date has no value in a tree of settings, so it stands for an object without
members. -/

namespace Intendant.Toml

/-- Further digits, each of which may follow an underscore. -/
def moreDigits (isDigit : Char → Bool) : List Char → List Char × List Char
  | '_' :: c :: rest =>
    if isDigit c then
      let (ds, rest) := moreDigits isDigit rest
      (c :: ds, rest)
    else ([], '_' :: c :: rest)
  | c :: rest =>
    if isDigit c then
      let (ds, rest) := moreDigits isDigit rest
      (c :: ds, rest)
    else ([], c :: rest)
  | [] => ([], [])

/-- Digits without their underscores, at least one. -/
def digitRun? (isDigit : Char → Bool) : List Char → Option (List Char × List Char)
  | c :: rest =>
    if isDigit c then
      let (ds, rest) := moreDigits isDigit rest
      some (c :: ds, rest)
    else none
  | [] => none

/-- Takes a sign, if there is one, and says whether it is a minus. -/
def sign : List Char → Bool × List Char
  | '-' :: rest => (true, rest)
  | '+' :: rest => (false, rest)
  | cs => (false, cs)

/-- The digits before the point. A leading zero stands alone. -/
def whole? : List Char → Option (List Char × List Char)
  | '0' :: rest => some (['0'], rest)
  | cs => digitRun? Char.isDigit cs

/-- The exponent a text begins with. -/
def exponent? : List Char → Option (Int × List Char)
  | c :: rest =>
    if c = 'e' ∨ c = 'E' then do
      let (negative, rest) := sign rest
      let (ds, rest) ← digitRun? Char.isDigit rest
      let n := Nat.ofDigitChars 10 ds 0
      return (if negative then -(n : Int) else n, rest)
    else none
  | [] => none

/-- The digits after the point that a text begins with. -/
def fraction? : List Char → Option (List Char × List Char)
  | '.' :: rest => digitRun? Char.isDigit rest
  | _ => none

/-- An integer, if it fits 64 bits. -/
def integer? (n : Int) : Option Json :=
  if -9223372036854775808 ≤ n ∧ n ≤ 9223372036854775807 then some (.number (.int n)) else none

/-- A double. A positive one has to be finite. -/
def double? (negative : Bool) (coefficient : Nat) (exponent : Int) : Option Json :=
  let x := Decimal.nearest coefficient exponent
  if negative then some (.number (.real (-x)))
  else if x.isInf then none
  else some (.number (.real x))

/-- The decimal number a text begins with, an integer unless it has a fraction or an exponent. -/
def decimal? (cs : List Char) : Option (Json × List Char) :=
  match sign cs with
  | (negative, 'i' :: 'n' :: 'f' :: rest) => some (.number (.real (if negative then -1.0 / 0.0 else 1.0 / 0.0)), rest)
  | (_, 'n' :: 'a' :: 'n' :: rest) => some (.number (.real (0.0 / 0.0)), rest)
  | (negative, cs) => do
    let (whole, rest) ← whole? cs
    match exponent? rest, fraction? rest with
    | some (e, rest), _ => (double? negative (Nat.ofDigitChars 10 whole 0) e).map (·, rest)
    | none, some (fraction, rest) =>
      let (e, rest) := (exponent? rest).getD (0, rest)
      (double? negative (Nat.ofDigitChars 10 (whole ++ fraction) 0) (e - fraction.length)).map (·, rest)
    | none, none =>
      let n := Nat.ofDigitChars 10 whole 0
      (integer? (if negative then -(n : Int) else n)).map (·, rest)

/-- An integer in another base, after its mark. -/
def inBase? (base : Nat) (cs : List Char) : Option (Json × List Char) := do
  let isDigit (c : Char) : Bool :=
    match Text.hexValue? c with
    | some v => v < base
    | none => false
  let (ds, rest) ← digitRun? isDigit cs
  let n := ds.foldl (fun n d => n * base + (Text.hexValue? d).getD 0) 0
  return (← integer? n, rest)

/-- The number a text begins with, in one of the four bases. -/
def number? : List Char → Option (Json × List Char)
  | '0' :: 'x' :: rest => inBase? 16 rest
  | '0' :: 'o' :: rest => inBase? 8 rest
  | '0' :: 'b' :: rest => inBase? 2 rest
  | cs => decimal? cs

/-! ## Dates -/

/-- A number of a set count of digits within bounds. -/
def clipped? (width low high : Nat) (cs : List Char) : Option (Nat × List Char) :=
  let ds := cs.take width
  let n := Nat.ofDigitChars 10 ds 0
  if ds.length = width ∧ ds.all Char.isDigit ∧ low ≤ n ∧ n ≤ high then some (n, cs.drop width) else none

/-- What follows a mark. -/
def mark? (c : Char) : List Char → Option (List Char)
  | d :: rest => if c = d then some rest else none
  | [] => none

/-- The number of days in a month. -/
def daysIn (year month : Nat) : Nat :=
  if month = 2 then if year % 4 = 0 ∧ (year % 100 ≠ 0 ∨ year % 400 = 0) then 29 else 28
  else if month = 4 ∨ month = 6 ∨ month = 9 ∨ month = 11 then 30
  else 31

/-- What follows a date. -/
def date? (cs : List Char) : Option (List Char) := do
  let (year, cs) ← clipped? 4 0 9999 cs
  let (month, cs) ← clipped? 2 1 12 (← mark? '-' cs)
  let (_, cs) ← clipped? 2 1 (daysIn year month) (← mark? '-' cs)
  return cs

/-- What follows a time of day. A minute may have 61 seconds. -/
def time? (cs : List Char) : Option (List Char) := do
  let (_, cs) ← clipped? 2 0 23 cs
  let (_, cs) ← clipped? 2 0 59 (← mark? ':' cs)
  let (_, cs) ← clipped? 2 0 60 (← mark? ':' cs)
  match cs with
  | '.' :: c :: rest => return if c.isDigit then rest.dropWhile Char.isDigit else cs
  | cs => return cs

/-- What follows a distance from universal time. -/
def offset? : List Char → Option (List Char)
  | [] => none
  | c :: rest =>
    if c = 'Z' ∨ c = 'z' then some rest
    else if c = '+' ∨ c = '-' then do
      let (_, cs) ← clipped? 2 0 23 rest
      let (_, cs) ← clipped? 2 0 59 (← mark? ':' cs)
      return cs
    else none

/-- What follows a date, a time or both. -/
def moment? (cs : List Char) : Option (List Char) :=
  match date? cs with
  | none => time? cs
  | some [] => some []
  | some (c :: rest) =>
    if c = 'T' ∨ c = 't' ∨ c = ' ' then
      match time? rest with
      | some after => some ((offset? after).getD after)
      | none => some (c :: rest)
    else some (c :: rest)

end Intendant.Toml
