import Intendant.Plugin.Client
import Intendant.Plugin.Session

/-! # Conversations

A client and its plugin, with the streams between them. The plugin has a session for each stream and answers the
requests of the stream there, one after the other, also after the client has let go of the stream. The plugin may end
its sessions and start anew at any time. `Conversation.step?` says which moves of the two are possible and what they do. -/

namespace Intendant.Plugin
variable {σ : Type} [Json.Reading]

/-- An answer that a session has given: the call that asked for it, and the actuator and its memory at that time. -/
structure SessionReply (σ : Type) where
  number : Nat
  request : String
  actuator : Actuator σ
  memory : σ

namespace SessionReply

/-- The text of a reply, as the actuator gives it on the memory it found. -/
def text (r : SessionReply σ) : String := (answerText r.actuator r.request r.memory).1

/-- The memory of the actuator after it. -/
def memoryAfter (r : SessionReply σ) : σ := (answerText r.actuator r.request r.memory).2

/-- A reply as the frame that carries it, with the number of its call. -/
def frame (r : SessionReply σ) : Nat × Frame := (r.number, .text r.text)

end SessionReply

/-- A client and a plugin. -/
structure Conversation (σ : Type) where
  client : Client
  actuator : Actuator σ
  memory : σ
  /-- The streams that the client has let go of. -/
  dropped : List Link := []
  /-- The requests of all calls that have begun, with their numbers. -/
  asked : List (Nat × String) := []
  /-- The requests that were sent. -/
  sent : List (Nat × String) := []
  /-- The answers that the sessions have given. -/
  replies : List (SessionReply σ) := []

/-- A move of the client or of the plugin. -/
inductive ConversationMove (σ : Type) where
  /-- A move of the client, other than those that tell it of the plugin. -/
  | client (move : ClientMove)
  /-- The plugin answers the oldest request of the stream. -/
  | answer
  /-- The plugin answers the oldest request of a stream that the client has let go of. -/
  | answerDropped (index : Nat)
  /-- A frame arrives that is no answer. -/
  | signal (frame : Frame)
  /-- The session of the stream ends. -/
  | hangUp
  /-- The plugin starts anew, perhaps as another one. All its sessions end. -/
  | restart (actuator : Actuator σ) (memory : σ)

namespace Client

/-- Whether a move is the client's own and not one of the plugin. -/
def isOwn : ClientMove → Bool
  | .serve _ _ => false
  | .hangUp => false
  | _ => true

/-- The request of the call that begins with a move. -/
def asks (c : Client) : ClientMove → List (Nat × String)
  | .call request => [(c.fresh, request)]
  | _ => []

/-- The request that goes out with a move. -/
def sends (c : Client) : ClientMove → List (Nat × String)
  | .send n => (c.find? n).toList.map fun k => (n, k.request)
  | _ => []

end Client

namespace Conversation

/-- The beginning: a client that has not called its plugin yet. -/
def initial (info : Info) (callTimeoutMs : Nat) (actuator : Actuator σ) (memory : σ) : Conversation σ where
  client := { info := info, callTimeoutMs := callTimeoutMs }
  actuator := actuator
  memory := memory

/-- The answer to a request of a call as the plugin gives it now. -/
def reply (s : Conversation σ) (request : Nat × String) : SessionReply σ := ⟨request.1, request.2, s.actuator, s.memory⟩

/-- Notes an answer. -/
def replied (s : Conversation σ) (r : SessionReply σ) : Conversation σ :=
  { s with memory := r.memoryAfter, replies := s.replies ++ [r] }

/-- The conversation after a move of the client. A stream that the client lets go of stays with the plugin. -/
def advanced (s : Conversation σ) (m : ClientMove) (c : Client) : Conversation σ :=
  { s with
    client := c
    dropped := s.dropped ++ if c.stream.isNone then s.client.stream.toList else []
    asked := s.asked ++ s.client.asks m
    sent := s.sent ++ s.client.sends m }

/-- The conversation after a move, where the move is possible. -/
def step? (s : Conversation σ) : ConversationMove σ → Option (Conversation σ)
  | .client m => if Client.isOwn m then (s.client.step? m).map (s.advanced m) else none
  | .answer => do
    let l ← s.client.stream
    let request ← l.requests.head?
    let r := s.reply request
    let c ← s.client.step? (.serve [.text r.text] false)
    return { s with client := c }.replied r
  | .answerDropped index => do
    let l ← s.dropped[index]?
    let request ← l.requests.head?
    let r := s.reply request
    if l.ended then none
    else
      let l' : Link := { l with requests := l.requests.tail, frames := l.frames ++ [r.frame] }
      some ({ s with dropped := s.dropped.set index l' }.replied r)
  | .signal f => do
    let l ← s.client.stream
    if (Client.answerIn? f).isSome then none
    else some { s with client := { s.client with stream := some { l with frames := l.frames ++ [(s.client.fresh, f)] } } }
  | .hangUp => (s.client.step? .hangUp).map fun c => { s with client := c }
  | .restart actuator memory =>
    let client := (s.client.step? .hangUp).getD s.client
    some { s with client, actuator, memory, dropped := s.dropped.map fun l => { l with ended := true } }

/-- The conversation after some moves, if all of them are possible. -/
def run? (s : Conversation σ) : List (ConversationMove σ) → Option (Conversation σ)
  | [] => some s
  | m :: moves => (s.step? m).bind (run? · moves)

end Conversation
end Intendant.Plugin
