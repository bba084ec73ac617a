import Intendant.Plugin.Error

/-! # Serving

How a registry takes up its service and ends it. Several calls may be under way at once: a call to start
lets others on while it binds an address and while it waits for its server to be ready. -/

namespace Intendant

/-- A call to start, by what it does next. -/
inductive Opening where
  /-- Looks whether the registry was stopped or serves already. -/
  | starting
  /-- Waits for an address. -/
  | binding
  /-- Takes up the service on a port. -/
  | bound (port : Nat)
  /-- Waits for the server to be ready. -/
  | polling (port : Nat)

/-- What comes from the network. -/
inductive ServingSignal where
  | bound (port : Except PluginError Nat)
  | ready (failure : Option PluginError)

/-- The service of a registry. -/
structure Serving where
  stopped : Bool := false
  /-- The port that was bound first. -/
  address : Option Nat := none
  /-- The ports of the registration servers that were started. -/
  servers : List Nat := []
  /-- The number of the health loops that were started. -/
  loops : Nat := 0
  /-- Whether servers and loops were told to end. -/
  ending : Bool := false
  openings : List Opening := []
  /-- The answers of calls to start, the latest one last. -/
  answers : List (Except PluginError Nat) := []

/-- One step of a call, or the beginning of one. -/
inductive ServingMove where
  | start
  /-- Forbids further starts. -/
  | stop
  /-- Tells servers and loops to end. -/
  | endAll
  | goOn (index : Nat) (signal : Option ServingSignal)

namespace Serving

/-- Answers a call to start. -/
def answer (s : Serving) (a : Except PluginError Nat) : Serving := { s with answers := s.answers ++ [a] }

/-- One step of a call to start: the service, and what is left of the call. -/
def openingStep? (s : Serving) : Opening → Option ServingSignal → Option (Serving × Option Opening)
  | .starting, none =>
    if s.stopped then some (s.answer (.error .stopped), none)
    else
      match s.address with
      | some port => some (s.answer (.ok port), none)
      | none => some (s, some .binding)
  | .binding, some (.bound (.error e)) => some (s.answer (.error e), none)
  | .binding, some (.bound (.ok port)) => some (s, some (.bound port))
  | .bound port, none =>
    some ({ s with
      address := some (s.address.getD port)
      servers := s.servers ++ [port]
      loops := s.loops + 1 }, some (.polling port))
  | .polling port, some (.ready none) => some (s.answer (.ok port), none)
  | .polling _, some (.ready (some e)) => some (s.answer (.error e), none)
  | _, _ => none

/-- The service after a move, where the move is possible. -/
def step? (s : Serving) : ServingMove → Option Serving
  | .start => some { s with openings := s.openings ++ [.starting] }
  | .stop => some { s with stopped := true }
  | .endAll => if s.stopped then some { s with ending := true } else none
  | .goOn index signal => do
    let call ← s.openings[index]?
    let (s, rest) ← s.openingStep? call signal
    return { s with openings := match rest with
      | some c => s.openings.set index c
      | none => s.openings.eraseIdx index }

end Serving
end Intendant
