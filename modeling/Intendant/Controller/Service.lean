import Intendant.Controller.System

/-! # Running a controller

One order of the moves of a system is the eager one: rounds go on first, then workers take keys, then
callers queue theirs, until no task can go on. A `Service` runs a controller in this order, with a ticker
and a purge that go off by the clock. A worker whose round waits for an answer that never comes is lost, and
so is a ticker that finds the queue full when all workers are lost. -/

namespace Intendant

/-- Answers the requests of rounds, or leaves them without an answer for ever; `σ` is the world that the
    answers depend on and change. -/
abbrev Answering (π σ : Type) := Request π → σ → Option Reply × σ

namespace Round
variable {π σ : Type}

/-- What a round goes on with: nothing where it waits for nothing, else the answer that it waits for. Where
    that answer does not come, it does not go on. -/
def impulse? (answer : Answering π σ) (r : Round π) (w : σ) : Option (Option Reply) × σ :=
  match r.request? with
  | none => (some none, w)
  | some q =>
    let (reply, w) := answer q w
    (reply.map some, w)

/-- Runs a round that no worker runs, for a number of steps, and says whether it came to its end. -/
def run (answer : Answering π σ) : Nat → Round π → Controller π → σ → Bool × Controller π × σ
  | 0, _, c, w => (false, c, w)
  | fuel + 1, r, c, w =>
    match r.impulse? answer w with
    | (none, w) => (false, c, w)
    | (some reply, w) =>
      match r.step? c reply with
      | some (c, some r) => run answer fuel r c w
      | some (c, none) => (true, c, w)
      | none => (false, c, w)

end Round

namespace System
variable {π σ : Type}

/-- The first caller that can go on. -/
def readySender? (s : System π) : Option Nat :=
  s.senders.findIdx? fun t => (sendStep? s.controller t).isSome

/-- The next move of the eager order, with the world after the answer that it takes. -/
def eager? (answer : Answering π σ) (s : System π) (w : σ) : Option (Move π × σ) :=
  match s.rounds with
  | r :: _ =>
    match r.impulse? answer w with
    | (some reply, w) => some (.goOn 0 reply, w)
    | (none, w) => some (.stall 0, w)
  | [] =>
    if 0 < s.idle ∧ s.controller.queue ≠ [] then some (.take, w)
    else s.readySender?.map fun i => (.send i, w)

/-- Makes moves of the eager order, up to a number of them. -/
def settleWithin (answer : Answering π σ) : Nat → System π → σ → System π × σ
  | 0, s, w => (s, w)
  | fuel + 1, s, w =>
    match eager? answer s w with
    | none => (s, w)
    | some (m, w) =>
      match s.step? m with
      | some s => settleWithin answer fuel s w
      | none => (s, w)

/-- The number of keys that a caller may still queue. -/
def keysLeft (c : Controller π) : Sender → Nat
  | .starting => c.intents.size
  | .sending ks => ks.length

/-- A bound on the moves that the tasks of a system can make by themselves: for every key one to queue it,
    one to take it and nine of its round, and two more for every caller. -/
def movesLeft (s : System π) : Nat :=
  let keys := s.senders.foldl (fun n t => n + keysLeft s.controller t) s.controller.queue.length
  s.rounds.foldl (fun n r => n + r.stepsLeft) (11 * keys + 2 * s.senders.length)

/-- Lets all tasks go on until they wait. -/
def settle (answer : Answering π σ) (s : System π) (w : σ) : System π × σ :=
  settleWithin answer (s.movesLeft + 1) s w

end System

/-- A controller that is run by the clock. -/
structure Service (π : Type) where
  system : System π
  /-- Whether it was run before. -/
  started : Bool := false
  /-- Whether it was told to end. -/
  ending : Bool := false
  /-- The tasks that were started and have not been waited for. -/
  tasks : Nat := 0
  ticker : Option Timer := none
  purger : Option Timer := none

namespace Service
variable {π σ : Type}

/-- The time a service has reached. -/
def now (s : Service π) : Nat := s.system.controller.now

/-- Makes a move that is possible, and lets the rounds go on as far as they can. -/
def move (answer : Answering π σ) (s : Service π) (m : Move π) (w : σ) : Service π × σ :=
  match s.system.step? m with
  | none => (s, w)
  | some system =>
    let (system, w) := system.settle answer w
    ({ s with system := system }, w)

/-- A timer with a period. -/
def timer? (start : Nat → Nat → Timer) (now period : Nat) : Option Timer :=
  if period = 0 then none else some (start now period)

/-- Starts the workers, the ticker and the purge, and says how many tasks these are. A controller can be run
    once only. Without workers, and where it has been told to end, nobody reads the queue. -/
def run (answer : Answering π σ) (s : Service π) (workers : Nat) (w : σ) : Nat × Service π × σ :=
  if s.started then (0, s, w)
  else
    let s := { s with started := true, tasks := s.tasks + workers + 2 }
    let controller := s.system.controller
    if s.ending then
      (workers + 2, { s with system := { s.system with controller := { controller with closed := true } } }, w)
    else
      let settings := controller.settings
      let s := { s with
        ticker := timer? Timer.startingLater s.now (settings.tickSeconds * 1000)
        purger := timer? Timer.startingLater s.now settings.cachePurgeMs
        system := s.system.withWorkers workers }
      let (s, w) := s.move answer .purge w
      (workers + 2, s, w)

/-- Tells all tasks to end, and says how many did. A lost worker does not end and keeps the queue open; a
    lost ticker, whose keys still wait for room, does not end either. -/
def shutdown (s : Service π) : Nat × Service π :=
  let closed := s.system.controller.closed || (s.started && s.system.stalled.isEmpty)
  let controller := { s.system.controller with closed := closed }
  (s.tasks - (s.system.stalled.length + s.system.senders.length), { s with
    ending := true, tasks := 0, ticker := none, purger := none
    system := { s.system with idle := 0, controller := controller } })

/-- Lets the time pass up to a moment. -/
def passTo (answer : Answering π σ) (s : Service π) (moment : Nat) (w : σ) : Service π × σ :=
  s.move answer (.pass (moment - s.now)) w

/-- Makes a move of a caller, and says whether the caller came through. One that did not waits for room at
    the end of the callers. -/
def enter (answer : Answering π σ) (s : Service π) (m : Move π) (w : σ) : Bool × Service π × σ :=
  let waiting := s.system.senders.length
  let (s, w) := s.move answer m w
  (s.system.senders.length ≤ waiting, s, w)

/-- Lets the ticker go off if it is due at the present moment. If its keys find no room, it is lost. -/
def fireTicker (answer : Answering π σ) (s : Service π) (w : σ) : Service π × σ :=
  match s.ticker with
  | some t =>
    if t.isDue s.now then
      let (through, s, w) := s.enter answer .tick w
      ({ s with ticker := if through then some t.advanced else none }, w)
    else (s, w)
  | none => (s, w)

/-- Lets the purge go off if it is due at the present moment. -/
def firePurger (answer : Answering π σ) (s : Service π) (w : σ) : Service π × σ :=
  match s.purger with
  | some t => if t.isDue s.now then { s with purger := some t.advanced }.move answer .purge w else (s, w)
  | none => (s, w)

/-- The moment at which a timer goes off next. -/
def nextMoment? (s : Service π) : Option Nat :=
  match s.ticker, s.purger with
  | some a, some b => some (if a.next ≤ b.next then a.next else b.next)
  | some a, none => some a.next
  | none, some b => some b.next
  | none, none => none

/-- Lets time pass up to a moment, with the timers going off on the way. -/
def advanceTo (answer : Answering π σ) (target : Nat) : Nat → Service π → σ → Service π × σ
  | 0, s, w => s.passTo answer target w
  | fuel + 1, s, w =>
    match s.nextMoment? with
    | none => s.passTo answer target w
    | some moment =>
      if target < moment then s.passTo answer target w
      else
        let (s, w) := s.passTo answer moment w
        let (s, w) := s.fireTicker answer w
        let (s, w) := s.firePurger answer w
        advanceTo answer target fuel s w

/-- Lets milliseconds pass. In each of them timers go off once at most. -/
def advance (answer : Answering π σ) (s : Service π) (milliseconds : Nat) (w : σ) : Service π × σ :=
  s.advanceTo answer (s.now + milliseconds) (milliseconds + 1) w

/-- How long a caller waits before it gives up, in milliseconds. -/
def patience : Nat := 1

/-- Makes a move of a caller, who gives up if there is no room in time; the keys that were queued by then
    stay. Whether the caller came through is the answer. -/
def call (answer : Answering π σ) (s : Service π) (m : Move π) (w : σ) : Bool × Service π × σ :=
  let waiting := s.system.senders.length
  let (through, s, w) := s.enter answer m w
  if through then (true, s, w)
  else
    let system := { s.system with senders := s.system.senders.take waiting }
    let (s, w) := { s with system := system }.advance answer patience w
    (false, s, w)

/-- Plans for one intent without a worker, and gives up if that does not come to an end in time. Whether it
    did is the answer. -/
def reconcile (answer : Answering π σ) (s : Service π) (key : String) (w : σ) : Bool × Service π × σ :=
  let r : Round π := .starting key
  let (ended, c, w) := r.run answer r.stepsLeft s.system.controller w
  let s := { s with system := { s.system with controller := c } }
  if ended then (true, s, w)
  else
    let (s, w) := s.advance answer patience w
    (false, s, w)

end Service
end Intendant
