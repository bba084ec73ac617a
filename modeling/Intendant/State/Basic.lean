import Intendant.Wire.Basic

/-! # States

A state is a point in the space of what a workload is and how it does: its intent with the values of the
objectives, its pods, its telemetry, its resources and its annotations. Two states are the same node of a
graph exactly if they are the same value. Doubles that are no NaN are the same value exactly if their bits
are the same; all NaNs are one value, whatever payload their bits carry. -/

namespace Intendant

/-- What a workload is to achieve, or the values that it does achieve. -/
structure Intent where
  key : String := ""
  priority : Float := 0.0
  targetKey : String := ""
  targetKind : String := ""
  objectives : KeyMap Float := .empty
deriving DecidableEq

/-- One pod of a workload. -/
structure Pod where
  availability : Float := 0.0
  node : String := ""
  phase : String := ""
  qosClass : String := ""
deriving DecidableEq

/-- A point that a workload can be in. -/
structure State where
  intent : Intent := {}
  pods : KeyMap Pod := .empty
  telemetry : KeyMap (KeyMap Float) := .empty
  resources : KeyMap Int64 := .empty
  annotations : KeyMap String := .empty
deriving DecidableEq

instance : Inhabited Intent := ⟨{}⟩
instance : Inhabited Pod := ⟨{}⟩
instance : Inhabited State := ⟨{}⟩

open Wire in
instance : Wire Intent where
  toJson i := .object [("key", .string i.key), ("priority", toJson i.priority), ("target_key", .string i.targetKey),
    ("target_kind", .string i.targetKind), ("objectives", toJson i.objectives)]
  ofJson? j := do
    let f ← Fields.of? ["key", "priority", "target_key", "target_kind", "objectives"] j
    return {
      key := ← f.required? "key"
      priority := ← f.required? "priority"
      targetKey := ← f.required? "target_key"
      targetKind := ← f.required? "target_kind"
      objectives := ← f.optional? "objectives" .empty }

open Wire in
instance : Wire Pod where
  toJson p := .object [("availability", toJson p.availability), ("node_name", .string p.node), ("state", .string p.phase),
    ("qos_class", .string p.qosClass)]
  ofJson? j := do
    let f ← Fields.of? ["availability", "node_name", "state", "qos_class"] j
    return {
      availability := ← f.required? "availability"
      node := ← f.optional? "node_name" ""
      phase := ← f.optional? "state" ""
      qosClass := ← f.optional? "qos_class" "" }

open Wire in
instance : Wire State where
  toJson s := .object [("intent", toJson s.intent), ("current_pods", toJson s.pods), ("current_data", toJson s.telemetry),
    ("resources", toJson s.resources), ("annotations", toJson s.annotations)]
  ofJson? j := do
    let f ← Fields.of? ["intent", "current_pods", "current_data", "resources", "annotations"] j
    return {
      intent := ← f.required? "intent"
      pods := ← f.optional? "current_pods" .empty
      telemetry := ← f.optional? "current_data" .empty
      resources := ← f.optional? "resources" .empty
      annotations := ← f.optional? "annotations" .empty }

end Intendant
