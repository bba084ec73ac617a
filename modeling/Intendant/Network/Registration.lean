import Intendant.Network.Basic

/-! # Registries on a network

Registration, health rounds, start and stop of the registries of a network, built from what a registry does
in one go and from the dialing in between. -/

namespace Intendant.Network
variable [Json.Reading]

/-- The network with one of its registries changed. -/
def withRegistry (n : Network) (i : Nat) (change : Registry → Registry) : Network :=
  match n.registries[i]? with
  | some p => { n with registries := n.registries.setIfInBounds i { p with registry := change p.registry } }
  | none => n

/-- A registration under way. -/
inductive Attempt where
  | answered (answer : Plugin.RegisterAnswer)
  /-- Has to be dialed again so many times at most. -/
  | dialing (info : Plugin.Info) (retries : Nat)
  | connected (client : Nat) (info : Plugin.Info)

/-- The answer to a plugin that cannot be reached. -/
def unreachable (info : Plugin.Info) (retries : Nat) : Attempt :=
  .answered (.rejected (Registry.unreachableReason (.unreachable (Endpoint.url info.endpoint) retries)))

/-- Looks whether a plugin is refused at once. -/
def attempt (p : RegistryProcess) (info : Plugin.Info) : Attempt :=
  match p.registry.refusal? info with
  | some reason => .answered (.rejected reason)
  | none => .dialing info p.settings.retries

/-- Lets an attempt that is still dialing dial once more. -/
def dialOnce (n : Network) (p : RegistryProcess) : Attempt → Attempt × Network
  | .dialing info retries =>
    match n.connect info 0 p.settings.callTimeoutMs with
    | (.ok client, n) => (.connected client info, n)
    | (.error _, n) =>
      match retries with
      | retries + 1 => (.dialing info retries, n)
      | 0 => (unreachable info p.settings.retries, n)
  | a => (a, n)

/-- Lets an attempt dial until it is connected or has no retries left. -/
def dialOut (n : Network) (p : RegistryProcess) : Attempt → Attempt × Network
  | .dialing info retries =>
    match n.connect info retries p.settings.callTimeoutMs with
    | (.ok client, n) => (.connected client info, n)
    | (.error _, n) => (unreachable info p.settings.retries, n)
  | a => (a, n)

/-- Accepts the plugin of an attempt, or stops its client. -/
def settle (n : Network) (i : Nat) : Attempt → Plugin.RegisterAnswer × Network
  | .answered a => (a, n)
  | .dialing _ _ => (.rejected "", n)
  | .connected client info =>
    match n.registries[i]? with
    | none => (.rejected "", n)
    | some p =>
      let (a, registry) := p.registry.commit info client
      let n := n.withRegistry i fun _ => registry
      (a, if a.accepted then n else n.stopClient client)

/-- A whole registration, from its begin to its end. -/
def register (n : Network) (i : Nat) (info : Plugin.Info) : Plugin.RegisterAnswer × Network :=
  match n.registries[i]? with
  | none => (.rejected "", n)
  | some p =>
    let (a, n) := n.dialOut p (attempt p info)
    n.settle i a

/-- Two registrations of one plugin at the same time: both are dialed before either is settled. -/
def registerTwice (n : Network) (i : Nat) (info : Plugin.Info) : List Plugin.RegisterAnswer × Network :=
  match n.registries[i]? with
  | none => ([], n)
  | some p =>
    let (a, n) := n.dialOut p (attempt p info)
    let (b, n) := n.dialOut p (attempt p info)
    let (a, n) := n.settle i a
    let (b, n) := n.settle i b
    ([a, b], n)

/-- Begins a registration. It is settled at once unless the plugin has to be dialed again. -/
def beginRegister (n : Network) (i : Nat) (info : Plugin.Info) : Attempt × Network :=
  match n.registries[i]? with
  | none => (.answered (.rejected ""), n)
  | some p =>
    match n.dialOnce p (attempt p info) with
    | (.dialing info retries, n) => (.dialing info retries, n)
    | (a, n) =>
      let (a, n) := n.settle i a
      (.answered a, n)

/-- Carries an attempt on to its end. -/
def endRegister (n : Network) (i : Nat) (a : Attempt) : Plugin.RegisterAnswer × Network :=
  match n.registries[i]? with
  | none => (.rejected "", n)
  | some p =>
    let (a, n) := n.dialOut p a
    n.settle i a

/-- Whether a client that is not stopped finds its plugin ready. -/
def checkClient (n : Network) (client : Nat) : Bool × Network :=
  match n.clients[client]? with
  | some c => if c.stopped then (false, n) else probe c.info.endpoint n
  | none => (false, n)

/-- Checks the health of all plugins of a registry and evicts those that failed too often. -/
def refresh (n : Network) (i : Nat) : Network :=
  match n.registries[i]? with
  | none => n
  | some p =>
    let (checkups, n) := p.registry.snapshot.foldl (fun (acc : List Checkup × Network) (name, client) =>
      let (ready, n) := acc.2.checkClient client
      (acc.1 ++ [⟨name, client, ready⟩], n)) ([], n)
    let (evicted, registry) := p.registry.takeCheckups checkups
    (n.withRegistry i fun _ => registry).stopClients evicted

/-! ## Start and stop -/

/-- Makes a move of the service of a registry, if it is possible. -/
def serve (n : Network) (i : Nat) (m : ServingMove) : Network :=
  match n.registries[i]? with
  | none => n
  | some p =>
    match p.serving.step? m with
    | some s => { n with registries := n.registries.setIfInBounds i { p with serving := s } }
    | none => n

/-- Starts a registry. The flag of the answer says whether it was running before. -/
def startRegistry (n : Network) (i : Nat) : Except PluginError Bool × Network :=
  match n.registries[i]? with
  | none => (.error .stopped, n)
  | some p =>
    let running := p.serving.address.isSome
    let n := (n.serve i .start).serve i (.goOn 0 none)
    let n :=
      if p.serving.stopped ∨ running then n
      else
        match n.bind p.settings.host p.settings.port (.registry i) with
        | .error e => n.serve i (.goOn 0 (some (.bound (.error e))))
        | .ok (port, n) =>
          ((n.serve i (.goOn 0 (some (.bound (.ok port))))).serve i (.goOn 0 none)).serve i (.goOn 0 (some (.ready none)))
    match (n.registries[i]?.bind fun p => p.serving.answers.getLast?) with
    | some (.ok _) => (.ok running, n)
    | some (.error e) => (.error e, n)
    | none => (.error .stopped, n)

/-- Stops a registry: no more starts and registrations, all clients stopped, nothing listening. -/
def stopRegistry (n : Network) (i : Nat) : Network :=
  match n.registries[i]? with
  | none => n
  | some p =>
    let (clients, registry) := p.registry.raiseStop.drain
    let n := ((n.serve i .stop).withRegistry i fun _ => registry).stopClients clients
    (n.serve i .endAll).unbind (.registry i)

/-- Makes the health rounds of a registry that fall into a time. -/
def passTime (n : Network) (i : Nat) (milliseconds : Nat) : Network :=
  match n.registries[i]? with
  | none => n
  | some p =>
    if p.serving.address.isNone ∨ p.serving.stopped ∨ p.settings.reconcileMs = 0 then n
    else (List.range (milliseconds / p.settings.reconcileMs)).foldl (fun n _ => n.refresh i) n

end Intendant.Network
