import Intendant.Json.Token

/-! # Writing JSON

`compact` writes a value without white space, `pretty` with two spaces per level. Members keep their
order. -/

namespace Intendant.Json

mutual

/-- The tokens a document is written with. -/
def tokens : Json → List Token
  | .null => [.null]
  | .bool b => [.bool b]
  | .number n => [.number (some n)]
  | .string s => [.string (some s)]
  | .array vs => .leftBracket :: elementTokens vs ++ [.rightBracket]
  | .object ms => .leftBrace :: memberTokens ms ++ [.rightBrace]
  | .unreadable => [.null]

/-- The tokens of an array's elements, with commas between them. -/
def elementTokens : List Json → List Token
  | [] => []
  | [v] => tokens v
  | v :: vs => tokens v ++ .comma :: elementTokens vs

/-- The tokens of an object's members, with commas between them. -/
def memberTokens : List (String × Json) → List Token
  | [] => []
  | [(k, v)] => .string (some k) :: .colon :: tokens v
  | (k, v) :: ms => .string (some k) :: .colon :: (tokens v ++ .comma :: memberTokens ms)

end

/-- A document without any spaces, as characters. -/
def compactChars (j : Json) : List Char := (tokens j).flatMap Token.text

/-- A document without any spaces. -/
def compact (j : Json) : String := String.ofList (compactChars j)

/-- The start of a line at a level, two spaces for each. -/
def newline (level : Nat) : List Char := '\n' :: List.replicate (2 * level) ' '

mutual

/-- The text of a value at a level of indentation. -/
def prettyChars (level : Nat) : Json → List Char
  | .null => ['n', 'u', 'l', 'l']
  | .bool b => Token.text (.bool b)
  | .number n => Token.numberText n
  | .string s => Token.quote s.toList
  | .array [] => ['[', ']']
  | .array (v :: vs) =>
    '[' :: newline (level + 1) ++ prettyChars (level + 1) v ++ prettyElements (level + 1) vs ++
      newline level ++ [']']
  | .object [] => ['\x7b', '\x7d']
  | .object ((k, v) :: ms) =>
    '\x7b' :: newline (level + 1) ++ Token.quote k.toList ++ [':', ' '] ++ prettyChars (level + 1) v ++
      prettyMembers (level + 1) ms ++ newline level ++ ['\x7d']
  | .unreadable => ['n', 'u', 'l', 'l']

/-- The further elements of an array, each on a line of its own. -/
def prettyElements (level : Nat) : List Json → List Char
  | [] => []
  | v :: vs => ',' :: newline level ++ prettyChars level v ++ prettyElements level vs

/-- The further members of an object, each on a line of its own. -/
def prettyMembers (level : Nat) : List (String × Json) → List Char
  | [] => []
  | (k, v) :: ms =>
    ',' :: newline level ++ Token.quote k.toList ++ [':', ' '] ++ prettyChars level v ++
      prettyMembers level ms

end

end Intendant.Json
