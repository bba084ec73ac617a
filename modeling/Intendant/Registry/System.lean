import Intendant.Registry.Basic

/-! # Registries at work

Registrations, health rounds and a stop may all be under way at once. Each is a task that lets others on
while it dials or probes; `RegistrySystem.step?` says which moves are possible and what they do. -/

namespace Intendant

/-- A task of a registry, by what it does next. -/
inductive RegistryTask where
  /-- Looks whether a plugin is refused at once. -/
  | checking (info : Plugin.Info)
  /-- Waits for the plugin to be reached. -/
  | dialing (info : Plugin.Info)
  /-- Accepts the plugin or not. -/
  | committing (info : Plugin.Info) (client : Nat)
  /-- Looks for the plugins to be checked. -/
  | listing
  /-- Waits for their answers. -/
  | probing (plugins : List (String × Nat))
  /-- Drops all plugins. -/
  | draining

/-- What comes from the plugins. -/
inductive RegistrySignal where
  | dialed (error : Option PluginError)
  | probed (ready : List Bool)

/-- The answer to a registration, with the client that was made for it. -/
structure Registration where
  info : Plugin.Info
  client : Option Nat
  answer : Plugin.RegisterAnswer

/-- A registry with its tasks. -/
structure RegistrySystem where
  registry : Registry
  tasks : List RegistryTask := []
  /-- The number of the client that is made next. -/
  freshClient : Nat := 0
  /-- The clients that were told to stop. -/
  stoppedClients : List Nat := []
  /-- The answered registrations, the latest one last. -/
  registrations : List Registration := []

/-- One step of a task, or the beginning of one. -/
inductive RegistryMove where
  | register (info : Plugin.Info)
  | refresh
  | stop
  | goOn (index : Nat) (signal : Option RegistrySignal)

namespace RegistrySystem

/-- Begins a task behind those under way. -/
def begin (s : RegistrySystem) (t : RegistryTask) : RegistrySystem := { s with tasks := s.tasks ++ [t] }

/-- Answers a registration, which may have made a client. -/
def answer (s : RegistrySystem) (info : Plugin.Info) (client : Option Nat) (a : Plugin.RegisterAnswer) : RegistrySystem :=
  { s with registrations := s.registrations ++ [⟨info, client, a⟩] }

/-- Stops clients. -/
def stopClients (s : RegistrySystem) (clients : List Nat) : RegistrySystem :=
  { s with stoppedClients := s.stoppedClients ++ clients }

/-- One step of a task: the system, and what is left of the task. -/
def taskStep? (s : RegistrySystem) : RegistryTask → Option RegistrySignal → Option (RegistrySystem × Option RegistryTask)
  | .checking info, none =>
    match s.registry.refusal? info with
    | some reason => some (s.answer info none (.rejected reason), none)
    | none => some (s, some (.dialing info))
  | .dialing info, some (.dialed (some e)) =>
    some (s.answer info none (.rejected (Registry.unreachableReason e)), none)
  | .dialing info, some (.dialed none) =>
    some ({ s with freshClient := s.freshClient + 1 }, some (.committing info s.freshClient))
  | .committing info client, none =>
    let (a, registry) := s.registry.commit info client
    let s := { s with registry := registry }.answer info (some client) a
    some (if a.accepted then s else s.stopClients [client], none)
  | .listing, none => some (s, some (.probing s.registry.snapshot))
  | .probing plugins, some (.probed ready) =>
    if plugins.length = ready.length then
      let checkups := (plugins.zip ready).map fun p => (⟨p.1.1, p.1.2, p.2⟩ : Checkup)
      let (evicted, registry) := s.registry.takeCheckups checkups
      some ({ s with registry := registry }.stopClients evicted, none)
    else none
  | .draining, none =>
    let (clients, registry) := s.registry.drain
    some ({ s with registry := registry }.stopClients clients, none)
  | _, _ => none

/-- The system after a move, where the move is possible. -/
def step? (s : RegistrySystem) : RegistryMove → Option RegistrySystem
  | .register info => some (s.begin (.checking info))
  | .refresh => some (s.begin .listing)
  | .stop => some ({ s with registry := s.registry.raiseStop }.begin .draining)
  | .goOn index signal => do
    let task ← s.tasks[index]?
    let (s, rest) ← s.taskStep? task signal
    return { s with tasks := match rest with
      | some t => s.tasks.set index t
      | none => s.tasks.eraseIdx index }

end RegistrySystem
end Intendant
