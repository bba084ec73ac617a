import Intendant.Plugin.Message

/-! # Clients of plugins

A client asks a plugin for candidates over a stream that it keeps from one call to the next. One call at a
time uses the stream; a call that fails in any way drops it, because a late answer would be taken for the
answer to the next request. `Client.step?` says which moves are possible and what they do.

Requests and frames carry the number of the call that they belong to. It does not travel; it is there so that
statements can tell the answers apart. -/

namespace Intendant.Plugin

/-- A frame of a stream. -/
inductive Frame where
  | text (content : String)
  | binary (content : ByteArray)
  | ping
  | close

/-- A stream between a client and a plugin, the oldest first on both ways. -/
structure Link where
  requests : List (Nat × String) := []
  frames : List (Nat × Frame) := []
  /-- Whether the plugin sends nothing more. -/
  ended : Bool := false

/-- What a call does next. -/
inductive CallPhase where
  /-- Waits for the calls before it. -/
  | waiting
  /-- Opens a stream. -/
  | opening
  /-- Sends its request. -/
  | sending
  /-- Waits for the answer. -/
  | receiving
deriving DecidableEq, Repr

/-- A call under way. -/
structure Call where
  number : Nat
  request : String
  phase : CallPhase

/-- What came of a call: an answer with the number of the call that it belongs to, or an error. -/
inductive CallOutcome where
  | answered (number : Nat) (answer : NextStateAnswer)
  | failed (error : ActuatorError)

/-- A client of one plugin. -/
structure Client where
  info : Info
  callTimeoutMs : Nat
  stopped : Bool := false
  /-- The call that uses the stream. -/
  holder : Option Nat := none
  stream : Option Link := none
  calls : List Call := []
  /-- The number of the next call. -/
  fresh : Nat := 0
  /-- What came of the calls, the latest one last. -/
  outcomes : List (Nat × CallOutcome) := []

/-- One step of a call, or one event from outside. -/
inductive ClientMove where
  /-- A call begins. -/
  | call (request : String)
  /-- A call gets the use of the stream. -/
  | acquire (number : Nat)
  /-- A call has opened a stream or failed to. -/
  | opened (number : Nat) (failure : Option ActuatorError)
  | send (number : Nat)
  /-- The plugin takes the oldest request and sends frames, and perhaps nothing after them. -/
  | serve (frames : List Frame) (ends : Bool)
  /-- The plugin ends the stream. -/
  | hangUp
  | receive (number : Nat)
  | timeOut (number : Nat)
  /-- The stream of a call breaks. -/
  | breakOff (number : Nat) (error : ActuatorError)
  | stop
  /-- A call sees that the client was stopped. -/
  | abort (number : Nat)

namespace Client
variable [Json.Reading]

/-- The call with a number. -/
def find? (c : Client) (number : Nat) : Option Call := c.calls.find? (·.number = number)

/-- Whether a call is in a phase and uses the stream, and the client was not stopped. -/
def isIn (c : Client) (number : Nat) (phase : CallPhase) : Bool :=
  !c.stopped && c.holder = some number && ((c.find? number).map (·.phase)) = some phase

/-- The client with a call in another phase. -/
def setPhase (c : Client) (number : Nat) (phase : CallPhase) : Client :=
  { c with calls := c.calls.map fun k => if k.number = number then { k with phase := phase } else k }

/-- Ends a call; if it used the stream, others may use it now. -/
def finish (c : Client) (number : Nat) (o : CallOutcome) : Client :=
  { c with
    calls := c.calls.filter (·.number ≠ number)
    holder := if c.holder = some number then none else c.holder
    outcomes := c.outcomes ++ [(number, o)] }

/-- Ends a call that failed, and drops the stream. -/
def fail (c : Client) (number : Nat) (e : ActuatorError) : Client :=
  { c with stream := none }.finish number (.failed e)

/-- The answer in a frame that may hold one. -/
def answerIn? : Frame → Option (Option NextStateAnswer)
  | .text t => some (Wire.decode? t)
  | .binary b => some ((String.fromUTF8? b).bind Wire.decode?)
  | _ => none

/-- What a call makes of the next frame. Other frames than answers are passed over. -/
def take? (c : Client) (number : Nat) (l : Link) : Option Client :=
  match l.frames with
  | [] => if l.ended then some (c.fail number .streamClosed) else none
  | (k, f) :: rest =>
    match answerIn? f with
    | some (some a) => some ({ c with stream := some { l with frames := rest } }.finish number (.answered k a))
    | some none => some (c.fail number (.serialization ""))
    | none =>
      match f with
      | .close => some (c.fail number .streamClosed)
      | _ => some { c with stream := some { l with frames := rest } }

/-- The client after a move, where the move is possible. -/
def step? (c : Client) : ClientMove → Option Client
  | .call request =>
    let c' := { c with fresh := c.fresh + 1 }
    if c.stopped then some (c'.finish c.fresh (.failed .stopped))
    else some { c' with calls := c.calls ++ [⟨c.fresh, request, .waiting⟩] }
  | .acquire n =>
    if !c.stopped ∧ c.holder = none ∧ (c.find? n).map (·.phase) = some .waiting then
      some ({ c with holder := some n }.setPhase n (if c.stream.isNone then .opening else .sending))
    else none
  | .opened n failure =>
    if c.isIn n .opening then
      match failure with
      | some e => some (c.fail n e)
      | none => some ({ c with stream := some {} }.setPhase n .sending)
    else none
  | .send n =>
    if c.isIn n .sending then do
      let l ← c.stream
      let k ← c.find? n
      return { c with stream := some { l with requests := l.requests ++ [(n, k.request)] } }.setPhase n .receiving
    else none
  | .serve frames ends => do
    let l ← c.stream
    if l.ended then none
    else
      match l.requests with
      | [] => none
      | (k, _) :: rest =>
        some { c with stream := some ⟨rest, l.frames ++ frames.map fun f => (k, f), ends⟩ }
  | .hangUp => do
    let l ← c.stream
    return { c with stream := some { l with ended := true } }
  | .receive n =>
    if c.isIn n .receiving then do
      let l ← c.stream
      c.take? n l
    else none
  | .timeOut n =>
    if c.isIn n .opening ∨ c.isIn n .sending ∨ c.isIn n .receiving then
      some (c.fail n (.timeout (c.callTimeoutMs * 1000000)))
    else none
  | .breakOff n e => if c.isIn n .sending ∨ c.isIn n .receiving then some (c.fail n e) else none
  | .stop => some { c with stopped := true, stream := if c.holder.isNone then none else c.stream }
  | .abort n =>
    if c.stopped ∧ (c.find? n).isSome then
      let c := c.finish n (.failed .stopped)
      some (if c.holder.isNone ∧ c.calls.isEmpty then { c with stream := none } else c)
    else none

end Client
end Intendant.Plugin
