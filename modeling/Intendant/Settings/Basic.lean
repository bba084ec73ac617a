import Intendant.Wire.Basic

/-! # Settings

The settings of the planner, the controller and the plugin registry. A document gives some of them and the
others keep their defaults. Thirteen of them are bounded: `Settings.validate?` refuses settings with a value
out of bounds and names the first such value. -/

namespace Intendant

/-- The settings of the controller. -/
structure ControllerSettings where
  workers : Nat := 1
  channelLength : Nat := 100
  tickSeconds : Nat := 5
  cacheTtlMs : Nat := 10000
  cachePurgeMs : Nat := 1000
deriving DecidableEq, Repr

/-- The settings of the planner and its plugin registry. -/
structure PlannerSettings where
  maxStates : Nat := 1000
  maxCandidates : Nat := 10
  opportunistic : Nat := 0
  registryHost : String := "localhost"
  registryPort : Nat := 33333
  healthRetries : Nat := 3
  healthIntervalSeconds : Nat := 5
  callTimeoutSeconds : Nat := 10
deriving DecidableEq, Repr

/-- All settings. -/
structure Settings where
  logFilter : String := "info"
  controller : ControllerSettings := {}
  planner : PlannerSettings := {}
deriving DecidableEq, Repr

namespace Settings

/-! ## Documents -/

/-- How the fields of a record are taken from a document of one format. -/
abbrev FieldReader := List String → Json → Option Wire.Fields

/-- The part of a document under a name, or the default where it is not given. -/
def part? {α : Type} (f : Wire.Fields) (name : String) (default : α) (read : Json → Option α) : Option α :=
  match f.get? name with
  | none => some default
  | some j => read j

/-- A number under a name that is at most `limit`. -/
def natPart? (f : Wire.Fields) (name : String) (limit default : Nat) : Option Nat :=
  part? f name default (Wire.natUpTo? limit)

/-- The greatest number of 64, 32 and 16 bits. -/
def max64 : Nat := 18446744073709551615
/-- The greatest number of 32 bits. -/
def max32 : Nat := 4294967295
/-- The greatest number of 16 bits. -/
def max16 : Nat := 65535

/-- The controller's settings in a document. -/
def controllerOf? (fields : FieldReader) (j : Json) : Option ControllerSettings := do
  let f ← fields ["workers", "task_channel_length", "controller_timeout_secs", "plan_cache_ttl_ms",
    "plan_cache_timeout_ms"] j
  let d : ControllerSettings := {}
  return {
    workers := ← natPart? f "workers" max64 d.workers
    channelLength := ← natPart? f "task_channel_length" max64 d.channelLength
    tickSeconds := ← natPart? f "controller_timeout_secs" max64 d.tickSeconds
    cacheTtlMs := ← natPart? f "plan_cache_ttl_ms" max64 d.cacheTtlMs
    cachePurgeMs := ← natPart? f "plan_cache_timeout_ms" max64 d.cachePurgeMs }

/-- The planner's settings in a document. -/
def plannerOf? (fields : FieldReader) (j : Json) : Option PlannerSettings := do
  let f ← fields ["max_states", "max_candidates", "opportunistic_candidates", "plugin_manager_endpoint",
    "plugin_manager_port", "health_check_retries", "health_check_interval_secs", "plugin_call_timeout_secs"] j
  let d : PlannerSettings := {}
  return {
    maxStates := ← natPart? f "max_states" max64 d.maxStates
    maxCandidates := ← natPart? f "max_candidates" max64 d.maxCandidates
    opportunistic := ← natPart? f "opportunistic_candidates" max64 d.opportunistic
    registryHost := ← f.optional? "plugin_manager_endpoint" d.registryHost
    registryPort := ← natPart? f "plugin_manager_port" max16 d.registryPort
    healthRetries := ← natPart? f "health_check_retries" max32 d.healthRetries
    healthIntervalSeconds := ← natPart? f "health_check_interval_secs" max64 d.healthIntervalSeconds
    callTimeoutSeconds := ← natPart? f "plugin_call_timeout_secs" max64 d.callTimeoutSeconds }

/-- The settings in a document, with the default of each key that it leaves out. -/
def ofJson? (fields : FieldReader) (j : Json) : Option Settings := do
  let f ← fields ["generic", "controller", "planner"] j
  return {
    logFilter := ← part? f "generic" "info" fun j => do
      let g ← fields ["log_filter"] j
      g.optional? "log_filter" "info"
    controller := ← part? f "controller" {} (controllerOf? fields)
    planner := ← part? f "planner" {} fun j => do
      let p ← fields ["astar"] j
      part? p "astar" {} (plannerOf? fields) }

/-- The settings as a document with all its keys. -/
def toJson (s : Settings) : Json :=
  let nat (n : Nat) : Json := Json.ofInt n
  .object [
    ("generic", .object [("log_filter", .string s.logFilter)]),
    ("controller", .object [("workers", nat s.controller.workers), ("task_channel_length", nat s.controller.channelLength),
      ("controller_timeout_secs", nat s.controller.tickSeconds), ("plan_cache_ttl_ms", nat s.controller.cacheTtlMs),
      ("plan_cache_timeout_ms", nat s.controller.cachePurgeMs)]),
    ("planner", .object [("astar", .object [("max_states", nat s.planner.maxStates),
      ("max_candidates", nat s.planner.maxCandidates), ("opportunistic_candidates", nat s.planner.opportunistic),
      ("plugin_manager_endpoint", .string s.planner.registryHost), ("plugin_manager_port", nat s.planner.registryPort),
      ("health_check_retries", nat s.planner.healthRetries),
      ("health_check_interval_secs", nat s.planner.healthIntervalSeconds),
      ("plugin_call_timeout_secs", nat s.planner.callTimeoutSeconds)])])]

/-! ## Bounds -/

/-- A bounded setting: what is measured, how it is shown and the bounds. -/
structure Bound where
  field : String
  measure : Nat
  shown : String
  low : Nat
  high : Nat
  /-- What is measured, where it is not the value itself. -/
  unit : String := ""

namespace Bound

/-- Whether a setting lies within its bound. -/
def holds (b : Bound) : Bool := b.low ≤ b.measure && b.measure ≤ b.high

/-- The range of a bound as an error shows it. -/
def allowed (b : Bound) : String := toString b.low ++ "..=" ++ toString b.high ++ b.unit

/-- A bound on a number that is shown as it is. -/
def ofNat (field : String) (value low high : Nat) : Bound := ⟨field, value, toString value, low, high, ""⟩

end Bound

/-- The bounded settings of the planner, in the order in which they are checked. -/
def plannerBounds (p : PlannerSettings) : List Bound := [
  .ofNat "planner.astar.max_states" p.maxStates 1 100000,
  .ofNat "planner.astar.max_candidates" p.maxCandidates 1 1000,
  .ofNat "planner.astar.opportunistic_candidates" p.opportunistic 0 1000,
  ⟨"planner.astar.plugin_manager_endpoint", p.registryHost.utf8ByteSize, p.registryHost, 1, 100, " characters"⟩,
  .ofNat "planner.astar.plugin_manager_port" p.registryPort 1 65535,
  .ofNat "planner.astar.health_check_retries" p.healthRetries 1 100,
  .ofNat "planner.astar.health_check_interval_secs" p.healthIntervalSeconds 1 3600,
  .ofNat "planner.astar.plugin_call_timeout_secs" p.callTimeoutSeconds 1 600]

/-- The bounded settings of the controller, in the order in which they are checked. There may be as many
    workers as processors. -/
def controllerBounds (processors : Nat) (c : ControllerSettings) : List Bound := [
  .ofNat "controller.workers" c.workers 1 processors,
  .ofNat "controller.task_channel_length" c.channelLength 1 10000,
  .ofNat "controller.controller_timeout_secs" c.tickSeconds 1 600,
  .ofNat "controller.plan_cache_ttl_ms" c.cacheTtlMs 1 500000,
  .ofNat "controller.plan_cache_timeout_ms" c.cachePurgeMs 1 50000]

/-- All bounds, in the order in which they are checked. -/
def bounds (processors : Nat) (s : Settings) : List Bound :=
  plannerBounds s.planner ++ controllerBounds processors s.controller

/-- The first setting out of bounds. -/
def violation? (processors : Nat) (s : Settings) : Option Bound := (s.bounds processors).find? fun b => !b.holds

end Settings
end Intendant
