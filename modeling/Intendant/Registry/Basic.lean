import Intendant.Plugin.Error
import Intendant.Plugin.Message

/-! # Plugin registries

A registry keeps the plugins that it accepted, in the order of their acceptance, and for each of them the
number of health checks in a row that it failed. What it does in one go, while it is locked, is a function
here; between these the registry may be changed by others. -/

namespace Intendant

/-- A registered plugin, with the number of the client that reaches it. -/
structure Registered where
  info : Plugin.Info
  client : Nat
deriving DecidableEq, Repr

/-- The outcome of one health check. -/
structure Checkup where
  name : String
  client : Nat
  ready : Bool
deriving DecidableEq, Repr

/-- The plugins of a registry. -/
structure Registry where
  /-- The failed checks in a row after which a plugin is evicted. -/
  retries : Nat
  plugins : List (String × Registered) := []
  failures : KeyMap Nat := .empty
  stopped : Bool := false

namespace Registry

/-- The plugin that is registered under a name. -/
def find? (r : Registry) (name : String) : Option Registered := r.plugins.lookup name

/-- Whether a plugin is registered under a name. -/
def contains (r : Registry) (name : String) : Bool := (r.find? name).isSome

/-- Why a registration is refused after the registry was stopped. -/
def stoppedReason : String := "Registry is stopped."

/-- Why a second plugin of one name is refused. -/
def takenReason : String := "Plugin is already registered."

/-- Why a plugin that cannot be reached is refused. -/
def unreachableReason (e : PluginError) : String := "Actuator client stub error: " ++ e.message ++ "."

/-- Why a plugin is refused before it is dialed. -/
def refusal? (r : Registry) (info : Plugin.Info) : Option String :=
  if r.stopped then some stoppedReason
  else if info.name = "" ∨ info.endpoint = "" then some "Plugin name and endpoint must not be empty."
  else if info.versions ≠ Plugin.version then some ("Unsupported plugin version: " ++ info.versions ++ ".")
  else if r.contains info.name then some takenReason
  else none

/-- Accepts a plugin that has been dialed, unless its name was taken or the registry was stopped in the
    meantime. -/
def commit (r : Registry) (info : Plugin.Info) (client : Nat) : Plugin.RegisterAnswer × Registry :=
  if r.contains info.name then (.rejected takenReason, r)
  else if r.stopped then (.rejected stoppedReason, r)
  else (.ok, { r with
    plugins := r.plugins ++ [(info.name, ⟨info, client⟩)]
    failures := r.failures.insert info.name 0 })

/-- The names of the plugins with their clients, as a health round starts from them. -/
def snapshot (r : Registry) : List (String × Nat) := r.plugins.map fun p => (p.1, p.2.client)

/-- Whether a checkup is about the plugin that is registered under its name now. -/
def concerns (r : Registry) (c : Checkup) : Bool :=
  match r.find? c.name with
  | some p => p.client = c.client
  | none => false

/-- Counts one checkup: the counters, and the names that have failed too often. -/
def count (r : Registry) (acc : KeyMap Nat × List String) (c : Checkup) : KeyMap Nat × List String :=
  let (failures, failed) := acc
  if !r.concerns c then acc
  else if c.ready then (failures.insert c.name 0, failed)
  else
    let n := (failures.get? c.name).getD 0 + 1
    (failures.insert c.name n, if r.retries ≤ n then failed ++ [c.name] else failed)

/-- Removes a plugin and its count of failures. -/
def evict (r : Registry) (name : String) : Registry :=
  { r with plugins := r.plugins.filter (·.1 ≠ name), failures := r.failures.erase name }

/-- Takes in checkups, and gives the clients of the plugins that are evicted. A checkup of a plugin that is
    not registered any more does not count. -/
def takeCheckups (r : Registry) (cs : List Checkup) : List Nat × Registry :=
  let (failures, failed) := cs.foldl r.count (r.failures, [])
  let evicted := failed.filterMap fun name => (r.find? name).map (·.client)
  (evicted, failed.foldl evict { r with failures := failures })

/-- Forbids everything from now on. -/
def raiseStop (r : Registry) : Registry := { r with stopped := true }

/-- Drops all plugins, and gives their clients. -/
def drain (r : Registry) : List Nat × Registry :=
  (r.plugins.map (·.2.client), { r with plugins := [], failures := .empty })

/-- The infos of the plugins in the order of their acceptance. -/
def infos (r : Registry) : List Plugin.Info := r.plugins.map (·.2.info)

end Registry
end Intendant
