/-! # JSON values

A document is read into a tree. Objects keep their members in the order of the text, repeated names
included, because whether a repeated name matters depends on what the object is read as. -/

namespace Intendant

/-- A JSON number. An integer literal that fits 64 bits keeps its value, any other number is a double. -/
inductive Json.Number where
  | int (value : Int)
  | real (value : Float)
deriving DecidableEq

/-- A JSON value. -/
inductive Json where
  | null
  | bool (value : Bool)
  | number (value : Json.Number)
  | string (value : String)
  | array (elements : List Json)
  | object (members : List (String × Json))
  /-- A well-formed part of a document that has no value: a number beyond the largest double, or text with
      half of a surrogate pair. It may be skipped but not read. -/
  | unreadable

namespace Json

instance : Inhabited Json := ⟨.null⟩

/-- The first member of an object that has a name. -/
def field? (j : Json) (name : String) : Option Json :=
  match j with
  | .object members => (members.find? (·.1 = name)).map (·.2)
  | _ => none

/-- A double as a number, or `null` where it is not finite. -/
def ofFloat (x : Float) : Json := if x.isFinite then .number (.real x) else .null

/-- An integer as a document. -/
def ofInt (n : Int) : Json := .number (.int n)

end Json
end Intendant
