import Intendant.Actuator.Scripted
import Intendant.Plugin.Client
import Intendant.Plugin.Endpoint
import Intendant.Plugin.Session
import Intendant.Registry.Basic
import Intendant.Registry.Dial
import Intendant.Registry.Serving
import Intendant.Registry.Settings

/-! # Networks in memory

A network holds registries, plugin processes and scripted peers that reach each other by ports of one
machine. Messages are delivered by direct calls, one at a time and in a fixed order, so whatever happens on a
network is a function of what it was told. -/

namespace Intendant

/-- A plugin that serves an actuator. -/
structure PluginProcess where
  name : String
  host : String
  /-- The port to serve on, or zero for any. -/
  port : Nat
  managerHost : String := "127.0.0.1"
  managerPort : Nat
  retries : Nat
  hosted : ScriptedActuator
  bound : Option Nat := none
  stopped : Bool := false

/-- What a scripted peer sends. -/
inductive PeerFrame where
  | frame (content : Plugin.Frame)
  /-- The stream ends without notice. -/
  | drop

/-- A peer that answers by script. Of each list the last entry repeats. -/
structure Peer where
  health : List Nat
  replies : List (List PeerFrame)
  response : Plugin.Response
  /-- Whether it has streams at all. -/
  streams : Bool
  probes : Nat := 0
  messages : Nat := 0

/-- Who listens on a port. -/
inductive Party where
  | registry (index : Nat)
  | plugin (index : Nat)
  | peer (index : Nat)
deriving DecidableEq, Repr

/-- A registry with its local actuators. -/
structure RegistryProcess where
  settings : RegistrySettings
  locals : List ScriptedActuator
  registry : Registry
  serving : Serving := {}

/-- A registry that has not been started yet. -/
def RegistryProcess.ofSettings (s : RegistrySettings) (locals : List ScriptedActuator) : RegistryProcess :=
  { settings := s, locals := locals, registry := { retries := s.retries } }

/-- All that runs on one machine. -/
structure Network where
  listeners : List (Nat × Party) := []
  freshPort : Nat := 40000
  plugins : Array PluginProcess := #[]
  peers : Array Peer := #[]
  registries : Array RegistryProcess := #[]
  clients : Array Plugin.Client := #[]
  journal : Journal := {}

instance : Inhabited Network := ⟨{}⟩

/-- An actuator on a part of a larger world. -/
def Actuator.within {σ τ : Type} (a : Actuator τ) (part : σ → τ) (withPart : σ → τ → σ) : Actuator σ where
  name := a.name
  group := a.group
  nextState state goal ps w :=
    let (r, t) := a.nextState state goal ps (part w)
    (r, withPart w t)
  perform state plan w :=
    let (r, t) := a.perform state plan (part w)
    (r, withPart w t)
  effect state ps w :=
    let (r, t) := a.effect state ps (part w)
    (r, withPart w t)

namespace Network
variable [Json.Reading]

/-- An entry of a list in which the last one repeats. -/
def nthOrLast? {α : Type} (xs : List α) (n : Nat) : Option α := if n < xs.length then xs[n]? else xs.getLast?

/-- The hosts that stand for this machine. -/
def isLocal (host : String) : Bool := host = "127.0.0.1" || host = "localhost" || host = "0.0.0.0"

/-- The party that listens at an endpoint. -/
def resolve? (n : Network) (endpoint : String) : Option Party := do
  let (host, port) ← Endpoint.parts? endpoint
  if isLocal host then n.listeners.lookup port else none

/-- Listens on a port, or on a fresh one for zero. -/
def bind (n : Network) (host : String) (port : Nat) (party : Party) : Except PluginError (Nat × Network) :=
  let address := Endpoint.ofParts host port
  if !isLocal host then .error (.bind address PluginError.addressNotAvailable)
  else if port ≠ 0 ∧ (n.listeners.lookup port).isSome then
    .error (.bind address PluginError.addressInUse)
  else
    let chosen := if port = 0 then n.freshPort else port
    .ok (chosen, { n with
      listeners := (chosen, party) :: n.listeners
      freshPort := if port = 0 then n.freshPort + 1 else n.freshPort })

/-- Frees the ports a party listens on. -/
def unbind (n : Network) (party : Party) : Network := { n with listeners := n.listeners.filter (·.2 ≠ party) }

/-! ## Health -/

/-- The status of a health check at an endpoint, if anyone is there. -/
def health (n : Network) (endpoint : String) : Option Nat × Network :=
  match n.resolve? endpoint with
  | none => (none, n)
  | some (.peer i) =>
    match n.peers[i]? with
    | none => (none, n)
    | some p =>
      (some ((nthOrLast? p.health p.probes).getD 200),
        { n with peers := n.peers.setIfInBounds i { p with probes := p.probes + 1 } })
  | some _ => (some 200, n)

/-- Whether the server at an endpoint says that it is ready. -/
def probe (endpoint : String) (n : Network) : Bool × Network :=
  match n.health endpoint with
  | (some status, n) => (200 ≤ status && status < 300, n)
  | (none, n) => (false, n)

/-- Dials an endpoint. Pauses take no time in memory; dialing without an outcome counts as failed. -/
def dialEndpoint (n : Network) (endpoint : String) (retries : Nat) : Except PluginError Unit × Network :=
  let url := Endpoint.url endpoint
  let dialed : StateM Network (Option (Except PluginError Unit)) :=
    dial (probe endpoint) (fun _ => pure ()) url (.ofNat retries) 0
  let (outcome, n) := dialed n
  (outcome.getD (.error (.unreachable url retries)), n)

/-- Probes an endpoint until it is ready or the deadline has passed. -/
def pollEndpoint (n : Network) (endpoint : String) (intervalMs deadlineMs : Nat) : Except PluginError Unit × Network :=
  let (ready, n) := (poll (probe endpoint) (pure ()) intervalMs deadlineMs (deadlineMs + 1) 0 : StateM Network Bool) n
  (if ready then .ok () else .error (.notReady (Endpoint.url endpoint) (deadlineMs * 1000000)), n)

/-! ## Clients -/

/-- Makes a move of a client, where it is possible. -/
def move (n : Network) (client : Nat) (m : Plugin.ClientMove) : Network :=
  match n.clients[client]?.bind (·.step? m) with
  | some c => { n with clients := n.clients.setIfInBounds client c }
  | none => n

/-- Dials a plugin and makes a client for it. -/
def connect (n : Network) (info : Plugin.Info) (retries callTimeoutMs : Nat) : Except PluginError Nat × Network :=
  match n.dialEndpoint info.endpoint retries with
  | (.error e, n) => (.error e, n)
  | (.ok (), n) => (.ok n.clients.size, { n with clients := n.clients.push { info := info, callTimeoutMs := callTimeoutMs } })

/-- Stops a client and lets its calls under way fail. -/
def stopClient (n : Network) (client : Nat) : Network :=
  let n := n.move client .stop
  match n.clients[client]? with
  | some c => c.calls.foldl (fun n k => n.move client (.abort k.number)) n
  | none => n

/-- Stops clients, one after the other. -/
def stopClients (n : Network) (clients : List Nat) : Network := clients.foldl stopClient n

/-- Breaks the streams of all the clients that talk to a party. -/
def hangUp (n : Network) (party : Party) : Network :=
  (List.range n.clients.size).foldl (fun n i =>
    match n.clients[i]? with
    | some c => if n.resolve? c.info.endpoint = some party then n.move i .hangUp else n
    | none => n) n

end Network
end Intendant
