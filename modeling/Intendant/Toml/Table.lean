import Intendant.Json.Value

/-! # Tables of a TOML document

A document is built up line by line. A header opens a table, dotted keys and headers imply the tables on
their way, and each of these may be extended by some later lines and not by others. `Table.set?`,
`Table.openTable?` and `Table.openElement?` are the three kinds of lines. -/

namespace Intendant.Toml

/-- How a table came to be. -/
inductive Origin where
  /-- By a header of its own. -/
  | header
  /-- On the way of a header to another table. -/
  | implied
  /-- On the way of a dotted key. -/
  | dotted
deriving DecidableEq

/-- An entry of a table under construction: a value, a table, or an array of tables with the newest one
    first. -/
inductive Node where
  | value (v : Json)
  | table (origin : Origin) (entries : List (String × Node))
  | tables (newestFirst : List Node)

/-- A table under construction, its keys in the order in which they were given. -/
abbrev Table := List (String × Node)

mutual

/-- The value of an entry. -/
def Node.json : Node → Json
  | .value v => v
  | .table _ es => .object (members es)
  | .tables ts => .array (elements ts).reverse

/-- The values of a table's entries under their keys. -/
def members : List (String × Node) → List (String × Json)
  | [] => []
  | (k, n) :: es => (k, n.json) :: members es

/-- The values of tables. -/
def elements : List Node → List Json
  | [] => []
  | n :: ns => n.json :: elements ns

end

namespace Table

/-- The table with another entry under a key. -/
def replace (es : Table) (key : String) (n : Node) : Table :=
  match es with
  | [] => [(key, n)]
  | (k, m) :: es => if k = key then (k, n) :: es else (k, m) :: replace es key n

/-- Changes the table at the end of a path. Missing tables on the way are implied, and an array of tables
    stands for its newest one. A dotted key may not pass through a table that has a header. -/
def within? (dotted : Bool) : (path : List String) → (change : Origin → Table → Option Table) → Origin → Table →
    Option Table
  | [], change, origin, es => change origin es
  | k :: path, change, _, es =>
    match es.lookup k with
    | none => do
      let origin : Origin := if dotted then .dotted else .implied
      return es.replace k (.table origin (← within? dotted path change origin []))
    | some (.table origin sub) =>
      if dotted ∧ origin = .header then none
      else return es.replace k (.table origin (← within? dotted path change origin sub))
    | some (.tables (.table origin sub :: earlier)) => do
      return es.replace k (.tables (.table origin (← within? dotted path change origin sub) :: earlier))
    | some (.tables _) => none
    | some (.value _) => none

/-- Sets a value under a key that was not given before. A dotted key sets it in a table of dotted keys, a
    plain one in the table itself. -/
def set? (path : List String) (key : String) (v : Json) (origin : Origin) (es : Table) : Option Table :=
  within? true path (fun origin es =>
    if (origin = .dotted ↔ path = []) ∨ (es.lookup key).isSome then none
    else some (es.replace key (.value v))) origin es

/-- Opens a table. It may have been implied before. -/
def openTable? (path : List String) (key : String) (root : Table) : Option Table :=
  within? false path (fun _ es =>
    match es.lookup key with
    | none => some (es.replace key (.table .header []))
    | some (.table .implied sub) => some (es.replace key (.table .header sub))
    | some _ => none) .header root

/-- Opens a further element of an array of tables. -/
def openElement? (path : List String) (key : String) (root : Table) : Option Table :=
  within? false path (fun _ es =>
    match es.lookup key with
    | none => some (es.replace key (.tables [.table .header []]))
    | some (.tables ts) => some (es.replace key (.tables (.table .header [] :: ts)))
    | some _ => none) .header root

end Table
end Intendant.Toml
