import Intendant.Settings.Basic

/-! # Settings of the plugin registry -/

namespace Intendant

/-- The settings of a plugin registry. All times are in milliseconds. -/
structure RegistrySettings where
  host : String
  port : Nat
  /-- The failed health checks in a row after which a plugin is evicted, and the attempts at dialing one. -/
  retries : Nat
  reconcileMs : Nat
  dialBackoffMs : Nat := 5000
  probeTimeoutMs : Nat := 5000
  readyPollMs : Nat := 1000
  readyTimeoutMs : Nat := 10000
  callTimeoutMs : Nat
deriving DecidableEq, Repr

/-- What the planner's settings say about its registry. -/
def PlannerSettings.registry (p : PlannerSettings) : RegistrySettings where
  host := p.registryHost
  port := p.registryPort
  retries := p.healthRetries
  reconcileMs := p.healthIntervalSeconds * 1000
  callTimeoutMs := p.callTimeoutSeconds * 1000

end Intendant
