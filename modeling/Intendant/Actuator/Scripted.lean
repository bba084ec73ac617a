import Intendant.Actuator.Basic
import Intendant.Text.Hex

/-! # Scripted actuators

Actuators that follow a simple script and keep a journal of the calls they get. They stand in for real ones
where a planner is tried out. -/

namespace Intendant

/-- An entry of the journal: one call of an actuator. -/
inductive Event where
  | next (actuator stateKey : String) (pods : Nat) (goalKey : String) (profiles : Nat)
  | perform (actuator stateKey : String) (planLength : Nat) (own : List ActionProperties)
  | effect (actuator : String) (objectives : List String) (profiles : Nat)

/-- What scripted actuators remember: the calls so far, the last serial number of every actuator that gives
    out serial numbers, and whether a call waits for an answer that does not come. -/
structure Journal where
  events : Array Event := #[]
  serials : List (Nat × Nat) := []
  stalled : Bool := false

instance : Inhabited Journal := ⟨{}⟩

namespace Journal

/-- The journal with one more event. -/
def record (e : Event) (j : Journal) : Journal := { j with events := j.events.push e }

/-- How many states an actuator has made up so far. -/
def serial (j : Journal) (actuator : Nat) : Nat := (j.serials.lookup actuator).getD 0

/-- The journal with the count of an actuator's made-up states set. -/
def setSerial (j : Journal) (actuator serial : Nat) : Journal :=
  { j with serials := (actuator, serial) :: j.serials.filter (·.1 ≠ actuator) }

/-- The calls so far, and the journal without them. -/
def takeEvents (j : Journal) : List Event × Journal := (j.events.toList, { j with events := #[] })

/-- The outcome of an activity, unless it waits for an answer that does not come. -/
def await {α : Type} (activity : Journal → α × Journal) (j : Journal) : Option α × Journal :=
  let (a, j) := activity j
  (if j.stalled then none else some a, { j with stalled := false })

end Journal

/-- What a scripted actuator proposes. -/
inductive Script where
  /-- Adds a pod and halves an objective, while there are fewer than `limit` pods. -/
  | addPod (limit : Nat) (objective : String)
  /-- Adds pods up to a replica count that the goal calls for. -/
  | scale
  /-- Removes one pod. -/
  | remove
  /-- Proposes `count` fresh states at every call. -/
  | dawdle (count : Nat)
  /-- Moves a resource by `delta` within bounds. -/
  | step (resource : String) (delta low high : Int64) (objective : String) (add utility : Float)
  /-- Answers by the key of the state. -/
  | table (rules : List (String × Except ActuatorError (List Candidate)))
  /-- Fails at every call. -/
  | broken (error : ActuatorError)
  /-- Never answers. -/
  | silent

namespace Script

/-- The latency that a number of pods is predicted to have. -/
def predictedLatency (pods : Nat) : Float :=
  if pods = 2 then 90.0 else if pods = 3 then 40.0 else if pods = 4 then 30.0 else 120.0

/-- The objective that the scaling scripts predict. -/
def latency : String := "p99latency"

/-- The replica count that a latency goal calls for. -/
def replicasFor (target : Float) : Nat := if target ≤ 50.0 then 3 else if target ≤ 100.0 then 2 else 1

/-- Whether a text occurs within another one. -/
def occursIn (needle : List Char) : List Char → Bool
  | [] => needle.isEmpty
  | c :: rest => needle.isPrefixOf (c :: rest) || occursIn needle rest

/-- Whether a pod was added by the scaling script. -/
def isDummy (pod : String) : Bool := occursIn "dummy_".toList pod.toList

/-- A state with the pods and the objectives changed. -/
def changed (s : State) (pods : KeyMap Pod) (objectives : KeyMap Float) : State :=
  { s with pods := pods, intent := { s.intent with objectives := objectives } }

/-- An objective with a function applied to its value, if the state has it. -/
def adjusted (objectives : KeyMap Float) (name : String) (f : Float → Float) : KeyMap Float :=
  match objectives.get? name with
  | some v => objectives.insert name (f v)
  | none => objectives

/-- The pods that scaling adds, counted up from `first`. -/
def withDummies (pods : KeyMap Pod) (first count : Nat) : KeyMap Pod :=
  (List.range count).foldl (fun ps i =>
    ps.insert ("dummy_" ++ toString (first + i)) { availability := 1.0, phase := "Running" }) pods

/-- The candidates of removing one pod each, in the order of their names. Removing the last pod ends the
    list. -/
def removals (name : String) (s : State) : List (String × Pod) → List Candidate
  | [] => []
  | (pod, p) :: rest =>
    if isDummy pod then removals name s rest
    else
      let pods := s.pods.erase pod
      if pods.size < 1 then []
      else
        ⟨changed s pods (s.intent.objectives.insert latency (predictedLatency pods.size)), p.availability,
          { name := name, properties := .str (KeyMap.empty.insert "pod" pod) }⟩ :: removals name s rest

/-- What a script proposes, given the last serial number, and the serial number afterwards. -/
def propose (script : Script) (name : String) (s goal : State) (serial : Nat) :
    Except ActuatorError (List Candidate) × Nat :=
  match script with
  | addPod limit objective =>
    if limit ≤ s.pods.size then (.ok [], serial)
    else
      let pods := s.pods.insert ("pod_" ++ toString s.pods.size) {}
      (.ok [⟨changed s pods (adjusted s.intent.objectives objective (· / 2.0)), 1.0, { name := name }⟩], serial)
  | scale =>
    let replicas := replicasFor ((goal.intent.objectives.get? latency).getD 0.0)
    if replicas ≤ s.pods.size then (.ok [], serial)
    else
      let first := (s.pods.keys.filter isDummy).length
      let pods := withDummies s.pods first (replicas - s.pods.size)
      let objectives := s.intent.objectives.insert latency (predictedLatency replicas)
      let count := KeyMap.empty.insert "replicas" (Int64.ofNat replicas)
      (.ok [⟨changed s pods objectives, 1.0, { name := name, properties := .int count }⟩], serial)
  | remove => (.ok (removals name s s.pods.toList), serial)
  | dawdle count =>
    let candidates := (List.range count).map fun i =>
      let pods := s.pods.insert ("pod-" ++ String.ofList (Text.hexPadded 16 (serial + i + 1))) {}
      (⟨{ s with pods := pods }, 0.0, { name := name }⟩ : Candidate)
    (.ok candidates, serial + count)
  | step resource delta low high objective add utility =>
    let value := (s.resources.get? resource).getD 0 + delta
    if value < low ∨ high < value then (.ok [], serial)
    else
      let objectives := adjusted s.intent.objectives objective (· + add)
      let next := { changed s s.pods objectives with resources := s.resources.insert resource value }
      let properties := ActionProperties.int (KeyMap.empty.insert resource value)
      (.ok [⟨next, utility, { name := name, properties := properties }⟩], serial)
  | table rules => ((rules.lookup s.intent.key).getD (.ok []), serial)
  | broken error => (.error error, serial)
  | silent => (.ok [], serial)

/-- Whether a script never answers. -/
def isSilent : Script → Bool
  | silent => true
  | _ => false

end Script

/-- A scripted actuator. -/
structure ScriptedActuator where
  /-- Tells actuators apart that give out serial numbers. -/
  id : Nat
  script : Script
  name : String
  group : String
  performError : Option ActuatorError := none
  effectError : Option ActuatorError := none

/-- Success, or the given error. -/
def okUnless (error : Option ActuatorError) : Except ActuatorError Unit :=
  match error with
  | some e => .error e
  | none => .ok ()

/-- The actuator that follows a script and keeps the journal. While a call waits for an answer that does not
    come, nothing else is asked for candidates. -/
def ScriptedActuator.actuator (a : ScriptedActuator) : Actuator Journal where
  name := a.name
  group := a.group
  nextState s goal ps j :=
    if j.stalled then (.ok [], j)
    else
      let j := j.record (.next a.name s.intent.key s.pods.size goal.intent.key ps.size)
      let (answer, serial) := a.script.propose a.name s goal (j.serial a.id)
      (answer, { j.setSerial a.id serial with stalled := a.script.isSilent })
  perform s plan j :=
    let own := (plan.filter (·.name = a.name)).map (·.properties)
    (okUnless a.performError, j.record (.perform a.name s.intent.key plan.length own))
  effect s ps j :=
    (okUnless a.effectError, j.record (.effect a.name s.intent.objectives.keys ps.size))

end Intendant
