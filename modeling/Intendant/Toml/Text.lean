import Intendant.Text.Hex

/-! # Texts and keys in TOML

What stands within and between the lines of a document: blanks, line breaks, comments, the four forms of
text and the keys. Every reader takes the characters of a document and gives back what it read and the
characters that follow. -/

namespace Intendant.Toml

/-- Whether a character is blank within a line. -/
def isBlank (c : Char) : Bool := c = ' ' || c = '\t'

/-- What follows the blanks at the start of a text. -/
def skipBlanks (cs : List Char) : List Char := cs.dropWhile isBlank

/-- What follows a line break at the start of a text. -/
def lineBreak? : List Char → Option (List Char)
  | '\n' :: rest => some rest
  | '\r' :: '\n' :: rest => some rest
  | _ => none

/-- What follows the blanks and line breaks at the start of a text. -/
def skipSpace : List Char → List Char
  | '\n' :: rest => skipSpace rest
  | '\r' :: '\n' :: rest => skipSpace rest
  | c :: rest => if isBlank c then skipSpace rest else c :: rest
  | [] => []

/-- Whether a character may stand unescaped in a text and in a comment. Of the control characters only the
    tab may. -/
def isPlain (c : Char) : Bool := c = '\t' || (0x20 ≤ c.toNat && c.toNat ≠ 0x7f)

/-- What follows a comment, if the text starts with one. -/
def skipComment : List Char → List Char
  | '#' :: rest => rest.dropWhile isPlain
  | cs => cs

/-- What follows the end of a line. Blanks and a comment may stand before it. -/
def endOfLine? (cs : List Char) : Option (List Char) :=
  match skipComment (skipBlanks cs) with
  | [] => some []
  | cs => lineBreak? cs

/-- The character some hexadecimal digits stand for. -/
def codePoint? (ds : List Char) : Option Char := do
  let n ← Text.hexNumber? ds
  if n.isValidChar then some (Char.ofNat n) else none

/-- The character that the text after a backslash stands for. -/
def escaped? : List Char → Option (Char × List Char)
  | 'b' :: rest => some ('\x08', rest)
  | 't' :: rest => some ('\t', rest)
  | 'n' :: rest => some ('\n', rest)
  | 'f' :: rest => some ('\x0c', rest)
  | 'r' :: rest => some ('\r', rest)
  | '"' :: rest => some ('"', rest)
  | '\\' :: rest => some ('\\', rest)
  | 'u' :: rest => if rest.length < 4 then none else (codePoint? (rest.take 4)).map (·, rest.drop 4)
  | 'U' :: rest => if rest.length < 8 then none else (codePoint? (rest.take 8)).map (·, rest.drop 8)
  | _ => none

/-- The characters of a text in double quotes, after the opening quote. -/
def basic? : Nat → List Char → Option (List Char × List Char)
  | 0, _ => none
  | _ + 1, [] => none
  | _ + 1, '"' :: rest => some ([], rest)
  | fuel + 1, '\\' :: rest => do
    let (c, rest) ← escaped? rest
    let (s, rest) ← basic? fuel rest
    return (c :: s, rest)
  | fuel + 1, c :: rest =>
    if isPlain c then do
      let (s, rest) ← basic? fuel rest
      return (c :: s, rest)
    else none

/-- The characters of a text in three double quotes, after the opening quotes. Up to two quotes may stand
    before the closing ones; a backslash at the end of a line takes the space up to the next text with it. -/
def basicLines? : Nat → List Char → Option (List Char × List Char)
  | 0, _ => none
  | _ + 1, '"' :: '"' :: '"' :: '"' :: '"' :: rest => some (['"', '"'], rest)
  | _ + 1, '"' :: '"' :: '"' :: '"' :: rest => some (['"'], rest)
  | _ + 1, '"' :: '"' :: '"' :: rest => some ([], rest)
  | fuel + 1, '\\' :: rest =>
    match lineBreak? (skipBlanks rest) with
    | some rest => basicLines? fuel (skipSpace rest)
    | none => do
      let (c, rest) ← escaped? rest
      let (s, rest) ← basicLines? fuel rest
      return (c :: s, rest)
  | fuel + 1, cs =>
    match lineBreak? cs, cs with
    | some rest, _ => do
      let (s, rest) ← basicLines? fuel rest
      return ('\n' :: s, rest)
    | none, c :: rest =>
      if isPlain c then do
        let (s, rest) ← basicLines? fuel rest
        return (c :: s, rest)
      else none
    | none, [] => none

/-- The characters of a text in single quotes, after the opening quote. Nothing is escaped. -/
def literal? (cs : List Char) : Option (List Char × List Char) :=
  match cs.dropWhile fun c => isPlain c && c ≠ '\x27' with
  | '\x27' :: rest => some (cs.takeWhile fun c => isPlain c && c ≠ '\x27', rest)
  | _ => none

/-- The characters of a text in three single quotes, after the opening quotes. -/
def literalLines? : Nat → List Char → Option (List Char × List Char)
  | 0, _ => none
  | _ + 1, '\x27' :: '\x27' :: '\x27' :: '\x27' :: '\x27' :: rest => some (['\x27', '\x27'], rest)
  | _ + 1, '\x27' :: '\x27' :: '\x27' :: '\x27' :: rest => some (['\x27'], rest)
  | _ + 1, '\x27' :: '\x27' :: '\x27' :: rest => some ([], rest)
  | fuel + 1, cs =>
    match lineBreak? cs, cs with
    | some rest, _ => do
      let (s, rest) ← literalLines? fuel rest
      return ('\n' :: s, rest)
    | none, c :: rest =>
      if isPlain c then do
        let (s, rest) ← literalLines? fuel rest
        return (c :: s, rest)
      else none
    | none, [] => none

/-- A text that may have several lines. A line break right after the opening quotes does not count. -/
def afterOpening (cs : List Char) : List Char := (lineBreak? cs).getD cs

/-- The string a text begins with, in one of the four kinds of quotes. -/
def text? (cs : List Char) : Option (String × List Char) := do
  let (s, rest) ← match cs with
    | '"' :: '"' :: '"' :: rest => basicLines? cs.length (afterOpening rest)
    | '"' :: rest => basic? cs.length rest
    | '\x27' :: '\x27' :: '\x27' :: rest => literalLines? cs.length (afterOpening rest)
    | '\x27' :: rest => literal? rest
    | _ => none
  return (String.ofList s, rest)

/-- Whether a character may stand in a key without quotes. -/
def isBare (c : Char) : Bool := c.isAlphanum || c = '-' || c = '_'

/-- The part of a key a text begins with, quoted or bare. -/
def keyPart? (cs : List Char) : Option (String × List Char) :=
  match cs with
  | '"' :: rest => (basic? cs.length rest).map fun (s, rest) => (String.ofList s, rest)
  | '\x27' :: rest => (literal? rest).map fun (s, rest) => (String.ofList s, rest)
  | cs =>
    let k := cs.takeWhile isBare
    if k.isEmpty then none else some (String.ofList k, cs.dropWhile isBare)

/-- The number of parts that a key may have, and of values that may stand in each other, plus one. -/
def depthLimit : Nat := 80

/-- The parts of a key with dots between them. Blanks may stand around every part. -/
def keyParts? : Nat → List Char → Option (List String × List Char)
  | 0, _ => none
  | fuel + 1, cs => do
    let (k, rest) ← keyPart? (skipBlanks cs)
    match skipBlanks rest with
    | '.' :: rest => do
      let (ks, rest) ← keyParts? fuel rest
      return (k :: ks, rest)
    | rest => return ([k], rest)

/-- A key: the parts before the last one, and the last one. -/
def key? (cs : List Char) : Option ((List String × String) × List Char) := do
  let (ks, rest) ← keyParts? (depthLimit - 1) cs
  let last ← ks.getLast?
  return ((ks.dropLast, last), rest)

end Intendant.Toml
