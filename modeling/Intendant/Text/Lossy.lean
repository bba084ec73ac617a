/-! # Bytes as text

Bytes that are meant as UTF-8 but need not be are read as text all the same: every longest run of bytes that
begins a character and does not end it stands for one replacement character, and so does every other byte
that is out of place. -/

namespace Intendant.Text

/-- The character that stands for bytes that are none. -/
def replacement : Char := '\ufffd'

/-- The number of further bytes of a character, by its first byte. -/
def furtherBytes? (b : Nat) : Option Nat :=
  if b < 0x80 then some 0
  else if 0xc2 ≤ b ∧ b < 0xe0 then some 1
  else if 0xe0 ≤ b ∧ b < 0xf0 then some 2
  else if 0xf0 ≤ b ∧ b < 0xf5 then some 3
  else none

/-- Whether a byte may be the second one of a character. Overlong forms, surrogates and code points that are
    too large are excluded here. -/
def isSecond (first b : Nat) : Bool :=
  if first = 0xe0 then 0xa0 ≤ b && b < 0xc0
  else if first = 0xed then 0x80 ≤ b && b < 0xa0
  else if first = 0xf0 then 0x90 ≤ b && b < 0xc0
  else if first = 0xf4 then 0x80 ≤ b && b < 0x90
  else 0x80 ≤ b && b < 0xc0

/-- Whether a byte may be the third or fourth one of a character. -/
def isLater (b : Nat) : Bool := 0x80 ≤ b && b < 0xc0

/-- The further bytes of a character that are in place, and what follows them. -/
def takeFurther (first : Nat) : (count : Nat) → (second : Bool) → List Nat → List Nat × List Nat
  | 0, _, bs => ([], bs)
  | _ + 1, _, [] => ([], [])
  | count + 1, second, b :: bs =>
    if (if second then isSecond first b else isLater b) then
      let (taken, rest) := takeFurther first count false bs
      (b :: taken, rest)
    else ([], b :: bs)

/-- The code point of a character by its first byte and the further ones. -/
def codePoint (first : Nat) (further : List Nat) : Nat :=
  let start := match further.length with
    | 0 => first
    | 1 => first - 0xc0
    | 2 => first - 0xe0
    | _ => first - 0xf0
  further.foldl (fun n b => n * 64 + (b - 0x80)) start

/-- The characters of bytes; the first argument bounds their number. -/
def lossyChars : Nat → List Nat → List Char
  | 0, _ => []
  | _ + 1, [] => []
  | fuel + 1, b :: bs =>
    match furtherBytes? b with
    | none => replacement :: lossyChars fuel bs
    | some count =>
      let (taken, rest) := takeFurther b count true bs
      (if taken.length = count then Char.ofNat (codePoint b taken) else replacement) :: lossyChars fuel rest

/-- Bytes as a text, each malformed part replaced. -/
def lossy (bytes : ByteArray) : String :=
  let bs := bytes.toList.map UInt8.toNat
  String.ofList (lossyChars bs.length bs)

end Intendant.Text
