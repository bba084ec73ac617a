import Intendant.Wire.Basic

/-! # Actions

An action is one step of a plan. Its properties mean something only to the actuator that proposed it. Two
names are reserved for the edges that the planner itself adds to a graph. -/

namespace Intendant

/-- What an actuator attaches to an action. -/
inductive ActionProperties where
  | none
  | str (values : KeyMap String)
  | int (values : KeyMap Int64)
deriving DecidableEq

/-- A named step of a plan. -/
structure Action where
  name : String
  properties : ActionProperties := .none
deriving DecidableEq

namespace Action

/-- The name of the edges into the goal. -/
def done : String := "done"

/-- The name of the edges that the opportunistic fallback adds. -/
def opportunistic : String := "opportunistic"

/-- Whether an action carries one of the reserved names. -/
def isSynthetic (a : Action) : Bool := a.name = done || a.name = opportunistic

end Action

instance : Inhabited Action := ⟨{ name := "" }⟩

/-- The kind of properties: a variant as the member of an object, a plain name as the element of an array. -/
def ActionProperties.kind? (whole part : Json) : Option String :=
  match whole, part with
  | .array _, .string kind => some kind
  | .array _, _ => Option.none
  | _, _ => Wire.variant? part

/-- Properties are written with their kind and, unless there are none, their values. Both have to be given
    and may stand in any order; in an array both have to stand. -/
instance : Wire ActionProperties where
  toJson
    | .none => .object [("type", .string "none")]
    | .str values => .object [("type", .string "str"), ("values", Wire.toJson values)]
    | .int values => .object [("type", .string "int"), ("values", Wire.toJson values)]
  ofJson? j := do
    let f ← Wire.Fields.of? ["type", "values"] j
    let kind ← (f.get? "type").bind (ActionProperties.kind? j)
    let values ← match j, f.get? "values" with
      | _, some v => some v
      | .object _, Option.none => if kind = "none" then some Json.null else Option.none
      | _, Option.none => Option.none
    match kind with
    | "none" =>
      match values with
      | .null => some .none
      | _ => Option.none
    | "str" => (Wire.ofJson? values).map .str
    | "int" => (Wire.ofJson? values).map .int
    | _ => Option.none

instance : Wire Action where
  toJson a := .object [("name", .string a.name), ("properties", Wire.toJson a.properties)]
  ofJson? j := do
    let f ← Wire.Fields.of? ["name", "properties"] j
    return { name := ← f.required? "name", properties := ← f.optional? "properties" .none }

end Intendant
