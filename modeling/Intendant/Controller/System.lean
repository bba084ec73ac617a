import Intendant.Controller.Round

/-! # Controllers at work

A system is a controller with its tasks: callers that queue keys, and workers that run rounds. A `Move` is
one step of one task or one event from outside, and `System.step?` says which moves are possible and what
they do; any order of possible moves is a run. -/

namespace Intendant

/-- A round of queueing by one caller. -/
inductive Sender where
  /-- Looks for the keys to be queued. -/
  | starting
  /-- Queues these keys one by one, waiting for room. -/
  | sending (keys : List String)

/-- A controller with its tasks. -/
structure System (π : Type) where
  controller : Controller π
  senders : List Sender := []
  /-- The number of workers without a round. -/
  idle : Nat := 0
  rounds : List (Round π) := []
  /-- The rounds that wait for an answer that never comes. Their workers do not come back. -/
  stalled : List (Round π) := []

/-- One step of a task, or one event from outside. -/
inductive Move (π : Type) where
  /-- The workers start. -/
  | start (workers : Nat)
  | updateIntent (intent : Intent)
  | updateProfile (profile : Profile)
  | tick
  | setPlanner (planner : Option π)
  | setPaused (paused : Bool)
  /-- Time passes. -/
  | pass (milliseconds : Nat)
  /-- Forgotten keys are dropped. -/
  | purge
  /-- A caller goes on. -/
  | send (index : Nat)
  /-- A worker takes the first key. -/
  | take
  /-- A round goes on. -/
  | goOn (index : Nat) (reply : Option Reply)
  /-- The answer that a round waits for will not come. -/
  | stall (index : Nat)
  /-- A worker without a round ends. -/
  | leave

namespace System
variable {π : Type}

/-- A system whose workers have not started. -/
def initial (settings : ControllerSettings) (planner : Option π) : System π where
  controller := .initial settings planner

/-- Whether no worker is there. -/
def isUnmanned (s : System π) : Bool := s.idle = 0 && s.rounds.isEmpty && s.stalled.isEmpty

/-- The system with another number of workers without a round. Nobody reads the queue once no worker is there. -/
def withWorkers (s : System π) (idle : Nat) : System π :=
  let s := { s with idle }
  { s with controller := { s.controller with closed := s.controller.closed || s.isUnmanned } }

/-- A change of the controller after which keys are queued. -/
def queueAfter (s : System π) (c : Controller π) : System π :=
  { s with controller := c, senders := s.senders ++ [.starting] }

/-- One step of a caller: the controller, and what is left of the caller. Where there is no room there is no
    step. -/
def sendStep? (c : Controller π) : Sender → Option (Controller π × Option Sender)
  | .starting => some (c, if c.warm then some (.sending c.pending) else none)
  | .sending [] => some (c, none)
  | .sending (k :: ks) =>
    if c.closed then some (c, none)
    else if c.queue.length < c.capacity then some ({ c with queue := c.queue ++ [k] }, some (.sending ks))
    else none

/-- Replaces the element at a place, or removes it. -/
def put {α : Type} (xs : List α) (index : Nat) : Option α → List α
  | some x => xs.set index x
  | none => xs.eraseIdx index

/-- One move. A round that ends sets its worker free. -/
def step? (s : System π) : Move π → Option (System π)
  | .start workers => if s.isUnmanned && !s.controller.closed then some (s.withWorkers workers) else none
  | .updateIntent i => some (s.queueAfter (s.controller.withIntent i))
  | .updateProfile p => some (s.queueAfter (s.controller.withProfile p))
  | .tick => some (s.queueAfter { s.controller with warm := true })
  | .setPlanner p => some { s with controller := { s.controller with planner := p } }
  | .setPaused b => some { s with controller := { s.controller with paused := b } }
  | .pass ms => some { s with controller := { s.controller with now := s.controller.now + ms } }
  | .purge => some { s with controller := { s.controller with recent := s.controller.recent.purge s.controller.now } }
  | .send index => do
    let (c, rest) ← sendStep? s.controller (← s.senders[index]?)
    return { s with controller := c, senders := put s.senders index rest }
  | .take =>
    match s.idle, s.controller.queue with
    | idle + 1, k :: ks =>
      some { s with controller := { s.controller with queue := ks }, idle := idle, rounds := s.rounds ++ [.starting k] }
    | _, _ => none
  | .goOn index reply => do
    let (c, rest) ← Round.step? s.controller (← s.rounds[index]?) reply
    return { s with
      controller := c
      rounds := put s.rounds index rest
      idle := if rest.isNone then s.idle + 1 else s.idle }
  | .stall index => do
    let r ← s.rounds[index]?
    if r.request?.isSome then some { s with rounds := s.rounds.eraseIdx index, stalled := s.stalled ++ [r] } else none
  | .leave =>
    match s.idle with
    | 0 => none
    | idle + 1 => some (s.withWorkers idle)

/-- The system after some moves, if all of them are possible. -/
def run? (s : System π) : List (Move π) → Option (System π)
  | [] => some s
  | m :: moves => (s.step? m).bind (run? · moves)

end System
end Intendant
