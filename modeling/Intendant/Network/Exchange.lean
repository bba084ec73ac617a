import Intendant.Network.Registration
import Intendant.Text.Lossy

/-! # Requests and streams on a network

What the parties of a network answer: single requests with a method and a path, and streams of requests for
candidates. -/

namespace Intendant.Network
variable [Json.Reading]
open Plugin (HttpRequest Response RegistryCall respond registerPath performPath effectPath healthPath)

/-- Lets an actuator of this machine act on the journal. -/
def onJournal {α : Type} (n : Network) (call : Journal → α × Journal) : α × Network :=
  let (a, journal) := call n.journal
  (a, { n with journal := journal })

/-- What a registry answers to a request. -/
def registryResponse (i : Nat) (q : HttpRequest) (n : Network) : Response × Network :=
  match RegistryCall.of? q with
  | .error r => (r, n)
  | .ok .health => (.healthy, n)
  | .ok (.register info) =>
    let (a, n) := n.register i info
    (⟨200, Wire.encode a⟩, n)

/-- What a peer answers to a request: its health as scripted, and one response to all calls. -/
def peerResponse (i : Nat) (p : Peer) (q : HttpRequest) (n : Network) : Response × Network :=
  if q.path = healthPath ∧ q.method = "GET" then
    (.bare ((nthOrLast? p.health p.probes).getD 200),
      { n with peers := n.peers.setIfInBounds i { p with probes := p.probes + 1 } })
  else if q.method = "POST" ∧ (q.path = registerPath ∨ q.path = performPath ∨ q.path = effectPath) then (p.response, n)
  else (.bare 404, n)

/-- The response at an endpoint, if anyone is there. -/
def request (n : Network) (endpoint : String) (q : HttpRequest) : Option Response × Network :=
  let given (r : Response × Network) : Option Response × Network := (some r.1, r.2)
  match n.resolve? endpoint with
  | none => (none, n)
  | some (.registry i) => given (registryResponse i q n)
  | some (.plugin i) =>
    match n.plugins[i]? with
    | some p => given (n.onJournal (respond p.hosted.actuator q))
    | none => (none, n)
  | some (.peer i) =>
    match n.peers[i]? with
    | some p => given (peerResponse i p q n)
    | none => (none, n)

/-- Posts a message and waits for the response. -/
def post (n : Network) (endpoint path body : String) : Option Response × Network :=
  n.request endpoint (.post path body)

/-! ## Streams -/

/-- Whether the party at an endpoint accepts streams. -/
def hasStream (n : Network) (endpoint : String) : Bool :=
  match n.resolve? endpoint with
  | some (.plugin _) => true
  | some (.peer i) => (n.peers[i]?.map (·.streams)).getD false
  | _ => false

/-- The frames of a scripted reply, and whether it ends the stream. -/
def replyFrames : List PeerFrame → List Plugin.Frame × Bool
  | [] => ([], false)
  | .drop :: _ => ([], true)
  | .frame .close :: _ => ([.close], true)
  | .frame f :: rest =>
    let (fs, ends) := replyFrames rest
    (f :: fs, ends)

/-- What a party sends for a request on a stream. A silent actuator sends nothing. -/
def streamReply (n : Network) (endpoint request : String) : Option (List Plugin.Frame × Bool) × Network :=
  match n.resolve? endpoint with
  | some (.plugin i) =>
    match n.plugins[i]? with
    | none => (none, n)
    | some p =>
      let (text, n) := n.onJournal (Journal.await (Plugin.answerText p.hosted.actuator request))
      (text.map fun t => ([.text t], false), n)
  | some (.peer i) =>
    match n.peers[i]? with
    | none => (none, n)
    | some p =>
      (some (replyFrames ((nthOrLast? p.replies p.messages).getD [])),
        { n with peers := n.peers.setIfInBounds i { p with messages := p.messages + 1 } })
  | _ => (none, n)

/-- The outcome of a call of a client, if it has one. -/
def outcome? (n : Network) (client number : Nat) : Option (Except ActuatorError (List Candidate)) :=
  (n.clients[client]?.bind fun c => c.outcomes.lookup number).map fun o =>
    match o with
    | .answered _ a => .ok a.candidates
    | .failed e => .error e

/-- Lets a call read frames, up to a number of them. -/
def receive (client number : Nat) : Nat → Network → Network
  | 0, n => n
  | fuel + 1, n => if (n.outcome? client number).isSome then n else receive client number fuel (n.move client (.receive number))

/-- The frames that wait for a client, and one more for the end of the stream. -/
def framesLeft (n : Network) (client : Nat) : Nat :=
  ((n.clients[client]?.bind (·.stream)).map fun l => l.frames.length).getD 0 + 1

/-- Begins a call for candidates and lets it go on as far as it can. -/
def beginCall (n : Network) (client : Nat) (q : Plugin.NextStateRequest) : Nat × Network :=
  match n.clients[client]? with
  | none => (0, n)
  | some c =>
    let number := c.fresh
    let text := Wire.encode q
    let n := n.move client (.call text)
    let n := match c.holder with
      | some earlier => n.move client (.timeOut earlier)
      | none => n
    let n := n.move client (.acquire number)
    let failure := if n.hasStream c.info.endpoint then none else some (ActuatorError.transport "")
    let n := n.move client (.opened number failure)
    let n := n.move client (.send number)
    let answerable := match n.clients[client]?.bind (·.stream) with
      | some l => !l.ended && !l.requests.isEmpty
      | none => false
    let n :=
      if answerable then
        match n.streamReply c.info.endpoint text with
        | (some (frames, ends), n) => n.move client (.serve frames ends)
        | (none, n) => n
      else n
    (number, receive client number (n.framesLeft client) n)

/-- Ends a call: what has not been answered by then never will be. -/
def endCall (n : Network) (client number : Nat) : Except ActuatorError (List Candidate) × Network :=
  let n := receive client number (n.framesLeft client) (n.move client (.abort number))
  let n := if (n.outcome? client number).isSome then n else n.move client (.timeOut number)
  ((n.outcome? client number).getD (.error .streamClosed), n)

/-- A whole call for candidates, from its begin to its end. -/
def nextState (n : Network) (client : Nat) (q : Plugin.NextStateRequest) : Except ActuatorError (List Candidate) × Network :=
  let (number, n) := n.beginCall client q
  n.endCall client number

/-- A call of a client that is answered with a status. -/
def postFrom (n : Network) (client : Nat) (path body : String) : Except ActuatorError Unit × Network :=
  match n.clients[client]? with
  | none => (.error .stopped, n)
  | some c =>
    if c.stopped then (.error .stopped, n)
    else
      match n.post c.info.endpoint path body with
      | (some r, n) => (r.toCall, n)
      | (none, n) => (.error (.transport ""), n)

/-- A client as an actuator of the planner. -/
def clientActuator (client : Nat) (c : Plugin.Client) : Actuator Network where
  name := c.info.name
  group := c.info.group
  nextState state goal ps n := n.nextState client ⟨state, goal, ps⟩
  perform state plan n := n.postFrom client performPath (Wire.encode (⟨state, plan⟩ : Plugin.PerformRequest))
  effect state ps n := n.postFrom client effectPath (Wire.encode (⟨state, ps⟩ : Plugin.EffectRequest))

/-- The actuators of a registry: the local ones, then the plugins in the order of their acceptance. -/
def actuators (n : Network) (i : Nat) : List (Actuator Network) :=
  match n.registries[i]? with
  | none => []
  | some p =>
    (p.locals.map fun a => a.actuator.within (·.journal) fun n j => { n with journal := j }) ++
      p.registry.plugins.filterMap fun e => n.clients[e.2.client]?.map (clientActuator e.2.client)

/-- The client behind an entry of the actuators of a registry. -/
def clientAt? (n : Network) (i entry : Nat) : Option Nat := do
  let p ← n.registries[i]?
  let (_, plugin) ← p.registry.plugins[entry - p.locals.length]?
  return plugin.client

/-! ## Raw streams -/

/-- What becomes of a frame that is sent on a raw stream. -/
inductive RawReply where
  | text (content : String)
  /-- There is no answer in words. -/
  | wordless
  | closed
  /-- The stream was closed before. -/
  | gone

/-- What stands in the first frame of an answer. -/
def firstWords : Option (List Plugin.Frame × Bool) → RawReply
  | some (.text t :: _, _) => .text t
  | some (.binary b :: _, _) => .text (Text.lossy b)
  | _ => .wordless

/-- Sends frames on a raw stream, each one after the answer to the one before. -/
def converse (endpoint : String) : List Plugin.Frame → Network → List RawReply × Network
  | [], n => ([], n)
  | .close :: rest, n => (.closed :: rest.map fun _ => .gone, n)
  | .ping :: rest, n =>
    let (replies, n) := converse endpoint rest n
    (.wordless :: replies, n)
  | .text t :: rest, n =>
    let (reply, n) := n.streamReply endpoint t
    let (replies, n) := converse endpoint rest n
    (firstWords reply :: replies, n)
  | .binary b :: rest, n =>
    let (reply, n) := n.streamReply endpoint (Text.lossy b)
    let (replies, n) := converse endpoint rest n
    (firstWords reply :: replies, n)

/-! ## Planners -/

/-- Starts a registry with the settings of a planner, and gives its number. -/
def startPlanner (n : Network) (s : PlannerSettings) (locals : List ScriptedActuator) : Except PluginError Nat × Network :=
  let i := n.registries.size
  let process := RegistryProcess.ofSettings s.registry locals
  match ({ n with registries := n.registries.push process }).startRegistry i with
  | (.ok _, n) => (.ok i, n)
  | (.error e, n) => (.error e, n)

/-! ## Plugin processes -/

/-- The network with one of its plugins changed. -/
def withPlugin (n : Network) (i : Nat) (change : PluginProcess → PluginProcess) : Network :=
  match n.plugins[i]? with
  | some p => { n with plugins := n.plugins.setIfInBounds i (change p) }
  | none => n

/-- Starts a plugin process. The flag of the answer says whether it was running before. -/
def startPlugin (n : Network) (i : Nat) : Except PluginError Bool × Network :=
  match n.plugins[i]? with
  | none => (.error .stopped, n)
  | some p =>
    if p.stopped then (.error .stopped, n)
    else if p.bound.isSome then (.ok true, n)
    else
      match n.bind p.host p.port (.plugin i) with
      | .error e => (.error e, n)
      | .ok (port, n) => (.ok false, n.withPlugin i fun p => { p with bound := some port })

/-- Stops a plugin: its streams break and its port is free again. -/
def stopPlugin (n : Network) (i : Nat) : Network :=
  (n.hangUp (.plugin i)).unbind (.plugin i) |>.withPlugin i fun p => { p with stopped := true, bound := none }

/-- What a plugin makes of the answer to its registration. Only the status of an error stops it from reading
    the answer. -/
def registerOutcome : Option Response → Except PluginError Unit
  | none => .error (.http "")
  | some r =>
    if r.isError then .error (.http "")
    else
      match (Wire.decode? r.body : Option Plugin.RegisterAnswer) with
      | none => .error (.http "")
      | some a =>
        if a.reason ≠ "" then .error (.rejected a.reason)
        else if !a.accepted then .error (.rejected "registration not accepted")
        else .ok ()

/-- Registers a plugin with its manager, which has to be ready before it is asked. -/
def registerPlugin (n : Network) (i : Nat) : Except PluginError Unit × Network :=
  match n.plugins[i]? with
  | none => (.error .stopped, n)
  | some p =>
    let port := p.bound.getD p.port
    if port = 0 ∨ p.managerPort = 0 then (.error (.invalidPort port p.managerPort), n)
    else
      let manager := Endpoint.ofParts p.managerHost p.managerPort
      match n.dialEndpoint manager p.retries with
      | (.error e, n) => (.error e, n)
      | (.ok (), n) =>
        let info : Plugin.Info :=
          { name := p.name, endpoint := Endpoint.ofParts p.host port, group := p.hosted.group }
        let (r, n) := n.post manager registerPath (Wire.encode (⟨info⟩ : Plugin.RegisterRequest))
        (registerOutcome r, n)

end Intendant.Network
