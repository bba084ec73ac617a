import Intendant.Json.Value

/-! # Records on the wire

A record is written as an object with its fields in a fixed order. It is read from an object in any order,
other members being skipped, or from an array of its fields in that order. `Fields.of?` is the one place
where a document is split into the fields of a record; `required?` and `optional?` then read a field. -/

namespace Intendant.Wire

/-- The given fields of a record. -/
structure Fields where
  given : List (String × Json)

namespace Fields

/-- The members of an object that carry one of the known names. -/
def known (names : List String) (members : List (String × Json)) : List (String × Json) :=
  members.filter fun m => m.1 ∈ names

/-- Whether a name is given to two members. -/
def hasRepeat : List (String × Json) → Bool
  | [] => false
  | m :: ms => ms.any (·.1 = m.1) || hasRepeat ms

/-- The fields of a record in a document. A known name may occur once only, and an array may not be longer
    than the record. -/
def of? (names : List String) : Json → Option Fields
  | .object members =>
    let given := known names members
    if hasRepeat given then none else some ⟨given⟩
  | .array elements => if elements.length ≤ names.length then some ⟨names.zip elements⟩ else none
  | _ => none

/-- The fields of a record in a document, where the elements of an array beyond the record do not count. -/
def leading? (names : List String) : Json → Option Fields
  | .array elements => of? names (.array (elements.take names.length))
  | j => of? names j

/-- The document of a field, if the field is given. -/
def get? (f : Fields) (name : String) : Option Json := (f.given.find? (·.1 = name)).map (·.2)

end Fields
end Intendant.Wire
