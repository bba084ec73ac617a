import Intendant.Plugin.Endpoint
import Intendant.Plugin.Request
import Intendant.Registry.Basic
import Intendant.Registry.Dial
import Intendant.Registry.Settings

/-! # The service of a registry

What a registry that is served does with requests, in health rounds and in the end. Like dialing, this goes on in any
monad that offers what a service needs of its surroundings. -/

namespace Intendant.Daemon

/-- A registry that is served. -/
structure Service where
  settings : RegistrySettings
  registry : Registry := { retries := settings.retries }
  /-- The number of the client that is made next. -/
  freshClient : Nat := 0

namespace Service

/-- Registers a plugin that was dialed, with a client of its own. -/
def enter (info : Plugin.Info) (s : Service) : Plugin.RegisterAnswer × Service :=
  let (answer, registry) := s.registry.commit info s.freshClient
  (answer, { s with registry := registry, freshClient := s.freshClient + 1 })

/-- Takes in the checkups of a round. -/
def review (checkups : List Checkup) (s : Service) : Service :=
  { s with registry := (s.registry.takeCheckups checkups).2 }

/-- Forbids everything from now on and drops all plugins. -/
def close (s : Service) : Service := { s with registry := s.registry.raiseStop.drain.2 }

end Service

/-- What a service needs of its surroundings. -/
structure Surroundings (m : Type → Type) where
  service : m Service
  /-- Changes the service in one go. -/
  change : {α : Type} → (Service → α × Service) → m α
  /-- Whether the server at an endpoint is ready in time. -/
  probe : String → m Bool
  /-- Waits for some milliseconds. -/
  pause : Nat → m Unit
  /-- Does several things at the same time. -/
  together : {α : Type} → List (m α) → m (List α)

namespace Surroundings
variable {m : Type → Type} [Monad m] (w : Surroundings m)

/-- Answers a registration. A plugin that is not refused at once is dialed; what is decided in the end depends on what
    has become of the registry in the meantime. -/
def register (info : Plugin.Info) : m Plugin.RegisterAnswer := do
  let s ← w.service
  match s.registry.refusal? info with
  | some reason => return .rejected reason
  | none =>
    let url := Endpoint.url info.endpoint
    let outcome ← dial (w.probe info.endpoint) w.pause url (.ofNat s.settings.retries) s.settings.dialBackoffMs
    match outcome.getD (.error (.unreachable url s.settings.retries)) with
    | .ok () => w.change (Service.enter info)
    | .error e => return .rejected (Registry.unreachableReason e)

/-- Answers a request. -/
def respond [Json.Reading] (q : Plugin.HttpRequest) : m Plugin.Response :=
  match Plugin.RegistryCall.of? q with
  | .error refusal => return refusal
  | .ok .health => return .healthy
  | .ok (.register info) => return ⟨200, Wire.encode (← w.register info)⟩

/-- Checks all plugins and evicts those that failed too often. -/
def round : m Unit := do
  let s ← w.service
  let checkups ← w.together (s.registry.plugins.map fun (name, p) => do
    return (⟨name, p.client, ← w.probe p.info.endpoint⟩ : Checkup))
  w.change fun s => ((), s.review checkups)

/-- Waits for the next round and does it. Says whether there is another one; there is none once the registry is stopped. -/
def nextRound : m Bool := do
  w.pause (← w.service).settings.reconcileMs
  if (← w.service).registry.stopped then return false
  w.round
  return true

end Surroundings

/-- The outcome of the first attempt that succeeds, or else the error of the last one. -/
def firstThat {m : Type → Type} [Monad m] {α ε β : Type} (attempt : α → m (Except ε β)) (e : ε) :
    List α → m (Except ε β)
  | [] => return .error e
  | a :: as => do
    match ← attempt a with
    | .ok b => return .ok b
    | .error e => firstThat attempt e as

end Intendant.Daemon
