import Intendant.Actuator.Basic
import Intendant.Wire.Basic

/-! # Messages between a registry and its plugins

What a plugin says of itself when it registers, and the questions and answers that stand for the calls of an
actuator. The candidates of an answer travel as three lists side by side. -/

namespace Intendant.Plugin

/-- The version of the protocol. A plugin has to speak exactly this one. -/
def version : String := "v1alpha1"

/-- The group of a plugin that does not name one. -/
def defaultGroup : String := "plugin"

/-- What a plugin is. -/
inductive Kind where
  | actuator
deriving DecidableEq, Repr

/-- What a plugin says of itself. -/
structure Info where
  name : String
  /-- Host and port. -/
  endpoint : String
  versions : String := version
  group : String := defaultGroup
  kind : Kind := .actuator
deriving DecidableEq, Repr

/-- Asks a registry to accept a plugin. -/
structure RegisterRequest where
  info : Info
deriving DecidableEq, Repr

/-- Whether a plugin was accepted, and why not. -/
structure RegisterAnswer where
  accepted : Bool
  reason : String := ""
deriving DecidableEq, Repr

/-- Asks a plugin for candidates. -/
structure NextStateRequest where
  state : State
  goal : State
  profiles : Profiles := .empty
deriving DecidableEq

/-- Candidates as three lists side by side. -/
structure NextStateAnswer where
  states : List State := []
  utilities : List Float := []
  actions : List Action := []
deriving DecidableEq

/-- Asks a plugin to perform its part of a plan. -/
structure PerformRequest where
  state : State
  plan : List Action := []
deriving DecidableEq

/-- Asks a plugin to learn from a state. -/
structure EffectRequest where
  state : State
  profiles : Profiles := .empty
deriving DecidableEq

/-- The answer that says nothing. -/
structure Done where
deriving DecidableEq, Repr

namespace RegisterAnswer

/-- The answer to a plugin that is accepted. -/
def ok : RegisterAnswer := ⟨true, ""⟩

/-- The answer to a plugin that is not accepted, with the reason. -/
def rejected (reason : String) : RegisterAnswer := ⟨false, reason⟩

end RegisterAnswer

namespace NextStateAnswer

/-- Candidates as three lists of one length. -/
def ofCandidates (cs : List Candidate) : NextStateAnswer := ⟨cs.map (·.state), cs.map (·.utility), cs.map (·.action)⟩

/-- Puts the three lists together again, as far as the shortest one goes. -/
def zipped : List State → List Float → List Action → List Candidate
  | s :: ss, u :: us, a :: as => ⟨s, u, a⟩ :: zipped ss us as
  | _, _, _ => []

/-- The candidates of an answer, as many as its shortest list has. -/
def candidates (r : NextStateAnswer) : List Candidate := zipped r.states r.utilities r.actions

/-- The warning about lists of unequal length. -/
def warning? (r : NextStateAnswer) (plugin : String) : Option String :=
  if r.states.length = r.utilities.length ∧ r.states.length = r.actions.length then none
  else some ("Plugin " ++ plugin ++ " returned " ++ toString r.states.length ++ " states, " ++
    toString r.utilities.length ++ " utilities and " ++ toString r.actions.length ++ " actions; using the first " ++
    toString r.candidates.length ++ ".")

end NextStateAnswer

/-! ## Wire forms -/

open Wire

instance : Wire Kind where
  toJson _ := .string "actuator"
  ofJson? j := (variant? j).bind fun s => if s = "actuator" then some .actuator else none

instance : Wire Info where
  toJson i := .object [("name", .string i.name), ("endpoint", .string i.endpoint), ("supported_versions", .string i.versions),
    ("group", .string i.group), ("plugin_type", toJson i.kind)]
  ofJson? j := do
    let f ← Fields.of? ["name", "endpoint", "supported_versions", "group", "plugin_type"] j
    return {
      name := ← f.required? "name"
      endpoint := ← f.required? "endpoint"
      versions := ← f.required? "supported_versions"
      group := ← f.optional? "group" defaultGroup
      kind := ← f.optional? "plugin_type" .actuator }

instance : Wire RegisterRequest where
  toJson r := .object [("plugin_info", toJson r.info)]
  ofJson? j := do
    let f ← Fields.of? ["plugin_info"] j
    return ⟨← f.required? "plugin_info"⟩

instance : Wire RegisterAnswer where
  toJson r := .object [("plugin_registered", .bool r.accepted), ("error", .string r.reason)]
  ofJson? j := do
    let f ← Fields.of? ["plugin_registered", "error"] j
    return ⟨← f.required? "plugin_registered", ← f.optional? "error" ""⟩

instance : Wire NextStateRequest where
  toJson r := .object [("state", toJson r.state), ("goal", toJson r.goal), ("profiles", toJson r.profiles)]
  ofJson? j := do
    let f ← Fields.of? ["state", "goal", "profiles"] j
    return ⟨← f.required? "state", ← f.required? "goal", ← f.optional? "profiles" .empty⟩

instance : Wire NextStateAnswer where
  toJson r := .object [("states", toJson r.states), ("utilities", toJson r.utilities), ("actions", toJson r.actions)]
  ofJson? j := do
    let f ← Fields.of? ["states", "utilities", "actions"] j
    return ⟨← f.optional? "states" [], ← f.optional? "utilities" [], ← f.optional? "actions" []⟩

instance : Wire PerformRequest where
  toJson r := .object [("state", toJson r.state), ("plan", toJson r.plan)]
  ofJson? j := do
    let f ← Fields.of? ["state", "plan"] j
    return ⟨← f.required? "state", ← f.optional? "plan" []⟩

instance : Wire EffectRequest where
  toJson r := .object [("state", toJson r.state), ("profiles", toJson r.profiles)]
  ofJson? j := do
    let f ← Fields.of? ["state", "profiles"] j
    return ⟨← f.required? "state", ← f.optional? "profiles" .empty⟩

instance : Wire Done where
  toJson _ := .object []
  ofJson? j := (Fields.of? [] j).map fun _ => {}

end Intendant.Plugin
