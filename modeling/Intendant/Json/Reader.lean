import Intendant.Json.Token

/-! # Reading JSON

The grammar of values over tokens. A text is read only if all of it is one value. -/

namespace Intendant.Json

/-- An object with the members read, unless one of the names has no value. -/
def ofNamed (members : List (Option String × Json)) : Json :=
  match members.mapM fun m => m.1.map fun k => (k, m.2) with
  | some named => .object named
  | none => .unreadable

mutual

/-- A value at the start of a token list, and what follows it. -/
def value? : Nat → List Token → Option (Json × List Token)
  | 0, _ => none
  | _ + 1, .null :: rest => some (.null, rest)
  | _ + 1, .bool b :: rest => some (.bool b, rest)
  | _ + 1, .number (some n) :: rest => some (.number n, rest)
  | _ + 1, .number none :: rest => some (.unreadable, rest)
  | _ + 1, .string (some s) :: rest => some (.string s, rest)
  | _ + 1, .string none :: rest => some (.unreadable, rest)
  | _ + 1, .leftBracket :: .rightBracket :: rest => some (.array [], rest)
  | fuel + 1, .leftBracket :: rest => do
    let (vs, rest) ← elements? fuel rest
    return (.array vs, rest)
  | _ + 1, .leftBrace :: .rightBrace :: rest => some (.object [], rest)
  | fuel + 1, .leftBrace :: rest => do
    let (ms, rest) ← members? fuel rest
    return (ofNamed ms, rest)
  | _ + 1, _ => none

/-- The elements of an array that has at least one. -/
def elements? : Nat → List Token → Option (List Json × List Token)
  | 0, _ => none
  | fuel + 1, ts => do
    let (v, rest) ← value? fuel ts
    match rest with
    | .comma :: rest => do
      let (vs, rest) ← elements? fuel rest
      return (v :: vs, rest)
    | .rightBracket :: rest => return ([v], rest)
    | _ => none

/-- The members of an object that has at least one. -/
def members? : Nat → List Token → Option (List (Option String × Json) × List Token)
  | fuel + 1, .string k :: .colon :: ts => do
    let (v, rest) ← value? fuel ts
    match rest with
    | .comma :: rest => do
      let (ms, rest) ← members? fuel rest
      return ((k, v) :: ms, rest)
    | .rightBrace :: rest => return ([(k, v)], rest)
    | _ => none
  | _, _ => none

end

/-- The value of a token list, all of which has to be one value. At most two rules apply per token. -/
def ofTokens? (ts : List Token) : Option Json :=
  match value? (2 * ts.length + 1) ts with
  | some (j, []) => some j
  | _ => none

/-- The document a text is, as characters. -/
def ofChars? [Reading] (cs : List Char) : Option Json := (Token.ofChars? cs).bind ofTokens?

/-- The document a text is. -/
def parse? [Reading] (s : String) : Option Json := ofChars? s.toList

end Intendant.Json
