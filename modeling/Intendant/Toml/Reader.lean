import Intendant.Toml.Number
import Intendant.Toml.Table
import Intendant.Toml.Text

/-! # Reading TOML

A document is a sequence of lines: blank ones, comments, headers and keys with their values. It is read
into the tree that a JSON document of the same content has. -/

namespace Intendant.Toml

/-- What follows blanks, line breaks and comments. -/
def skipLines : Nat → List Char → List Char
  | 0, cs => cs
  | fuel + 1, cs =>
    match skipSpace cs with
    | '#' :: rest =>
      match lineBreak? (rest.dropWhile isPlain) with
      | some rest => skipLines fuel rest
      | none => '#' :: rest
    | cs => cs

/-- The elements of an array after its opening bracket. A comma may stand behind the last one. -/
def arrayRest? (value? : List Char → Option (Json × List Char)) : Nat → List Char → Option (List Json × List Char)
  | 0, _ => none
  | fuel + 1, cs =>
    match skipLines cs.length cs with
    | ']' :: rest => some ([], rest)
    | cs => do
      let (v, rest) ← value? cs
      match skipLines rest.length rest with
      | ']' :: rest => return ([v], rest)
      | ',' :: rest => do
        let (vs, rest) ← arrayRest? value? fuel rest
        return (v :: vs, rest)
      | _ => none

/-- A key and its value within a line, and what follows them. -/
def keyValue? (value? : List Char → Option (Json × List Char)) (cs : List Char) :
    Option ((List String × String × Json) × List Char) := do
  let ((path, key), rest) ← key? cs
  match rest with
  | '=' :: rest => do
    let (v, rest) ← value? (skipBlanks rest)
    return ((path, key, v), rest)
  | _ => none

/-- The entries of a table within a line, after a brace or a comma. -/
def inlineRest? (value? : List Char → Option (Json × List Char)) : Nat → List Char → Table → Option (Table × List Char)
  | 0, _, _ => none
  | fuel + 1, cs, es => do
    let ((path, key, v), rest) ← keyValue? value? cs
    let es ← Table.set? path key v .header es
    match skipBlanks rest with
    | '\x7d' :: rest => return (es, rest)
    | ',' :: rest => inlineRest? value? fuel rest es
    | _ => none

/-- A value that has no parts. -/
def scalar? (cs : List Char) : Option (Json × List Char) :=
  match cs with
  | 't' :: 'r' :: 'u' :: 'e' :: rest => some (.bool true, rest)
  | 'f' :: 'a' :: 'l' :: 's' :: 'e' :: rest => some (.bool false, rest)
  | '"' :: _ => (text? cs).map fun (s, rest) => (.string s, rest)
  | '\x27' :: _ => (text? cs).map fun (s, rest) => (.string s, rest)
  | cs =>
    match moment? cs with
    | some rest => some (.object [], rest)
    | none => number? cs

/-- A value in which others may stand in each other up to a depth. -/
def value? : Nat → List Char → Option (Json × List Char)
  | depth + 1, '[' :: rest => (arrayRest? (value? depth) (rest.length + 1) rest).map fun (vs, rest) => (.array vs, rest)
  | depth + 1, '\x7b' :: rest =>
    match skipBlanks rest with
    | '\x7d' :: rest => some (.object [], rest)
    | _ => (inlineRest? (value? depth) (rest.length + 1) rest []).map fun (es, rest) => (.object (members es), rest)
  | _, cs => scalar? cs

/-- A document under construction: its tables and the path of the table that was opened last. -/
structure Draft where
  root : Table
  openPath : List String

/-- Sets a value in the table that was opened last. -/
def Draft.set? (d : Draft) (path : List String) (key : String) (v : Json) : Option Draft := do
  return { d with root := ← Table.within? false d.openPath (Table.set? path key v) .header d.root }

/-- One line of a document, and the lines that follow it. -/
def line? (d : Draft) (cs : List Char) : Option (Draft × List Char) :=
  match cs with
  | '[' :: '[' :: rest => do
    let ((path, key), rest) ← key? rest
    match rest with
    | ']' :: ']' :: rest => return (⟨← Table.openElement? path key d.root, path ++ [key]⟩, ← endOfLine? rest)
    | _ => none
  | '[' :: rest => do
    let ((path, key), rest) ← key? rest
    match rest with
    | ']' :: rest => return (⟨← Table.openTable? path key d.root, path ++ [key]⟩, ← endOfLine? rest)
    | _ => none
  | cs =>
    match endOfLine? cs with
    | some rest => some (d, rest)
    | none => do
      let ((path, key, v), rest) ← keyValue? (value? (depthLimit - 1)) cs
      return (← d.set? path key v, ← endOfLine? rest)

/-- Takes line after line into a draft. The fuel bounds their number. -/
def lines? : Nat → Draft → List Char → Option Draft
  | 0, _, _ => none
  | fuel + 1, d, cs =>
    match skipBlanks cs with
    | [] => some d
    | cs => do
      let (d, rest) ← line? d cs
      lines? fuel d rest

/-- The document without the mark that may stand before its first line. -/
def withoutMark : List Char → List Char
  | '\ufeff' :: rest => rest
  | cs => cs

/-- The document a TOML text stands for. -/
def parse? (s : String) : Option Json := do
  let cs := withoutMark s.toList
  let d ← lines? (cs.length + 1) ⟨[], []⟩ cs
  return .object (members d.root)

end Intendant.Toml
