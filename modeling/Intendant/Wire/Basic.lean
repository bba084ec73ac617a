import Intendant.Json.Reader
import Intendant.Json.Writer
import Intendant.KeyMap
import Intendant.Wire.Record

/-! # Wire forms

`Wire` pairs the document that a value is written as with the reading of a document. The forms of texts,
flags, numbers, lists and maps are here; each record has its form beside its type. -/

namespace Intendant

/-- A type with a wire form. -/
class Wire (α : Type) where
  /-- The document of a value. -/
  toJson : α → Json
  /-- The value of a document, if the document has the right shape. -/
  ofJson? : Json → Option α

namespace Wire

instance : Wire String where
  toJson := .string
  ofJson?
    | .string s => some s
    | _ => none

instance : Wire Bool where
  toJson := .bool
  ofJson?
    | .bool b => some b
    | _ => none

/-- Integers are read as doubles too. A double that is not finite is written as `null`, which is not
    read. -/
instance : Wire Float where
  toJson := Json.ofFloat
  ofJson?
    | .number (.real x) => some x
    | .number (.int n) => some (Float.ofInt n)
    | _ => none

/-- The integer a document is. -/
def int? : Json → Option Int
  | .number (.int n) => some n
  | _ => none

/-- The natural number of a document, if it is at most `limit`. -/
def natUpTo? (limit : Nat) (j : Json) : Option Nat := do
  let n ← int? j
  if 0 ≤ n ∧ n ≤ limit then some n.toNat else none

instance : Wire Int64 where
  toJson n := Json.ofInt n.toInt
  ofJson? j := do
    let n ← int? j
    if -9223372036854775808 ≤ n ∧ n ≤ 9223372036854775807 then some (Int64.ofInt n) else none

instance {α : Type} [Wire α] : Wire (List α) where
  toJson xs := .array (xs.map toJson)
  ofJson?
    | .array js => js.mapM ofJson?
    | _ => none

/-- Of two members for one name the later one counts. -/
instance {α : Type} [Wire α] : Wire (KeyMap α) where
  toJson m := .object (m.toList.map fun e => (e.1, toJson e.2))
  ofJson?
    | .object ms => (ms.mapM fun m => (ofJson? m.2).map fun v => (m.1, v)).map KeyMap.ofList
    | _ => none

/-- One of a few names: the name itself, or an object whose only member is the name with `null`. -/
def variant? (j : Json) : Option String :=
  match j with
  | .string s => some s
  | .object [(s, .null)] => some s
  | _ => none

variable {α : Type} [Wire α]

/-- The value of a field that must be given. -/
def Fields.required? (f : Fields) (name : String) : Option α := (f.get? name).bind ofJson?

/-- The value of a field, or its default where the field is not given. A field that is given has to be
    readable. -/
def Fields.optional? (f : Fields) (name : String) (default : α) : Option α :=
  match f.get? name with
  | none => some default
  | some j => ofJson? j

/-- A value as a text. -/
def encode (v : α) : String := (toJson v).compact

/-- The value a text stands for. -/
def decode? [Json.Reading] (s : String) : Option α := (Json.parse? s).bind ofJson?

end Wire
end Intendant
