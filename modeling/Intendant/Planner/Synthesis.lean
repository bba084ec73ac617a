import Intendant.Actuator.Basic
import Intendant.Graph.Search
import Intendant.State.Dominance

/-! # Synthesis of state graphs

A planner explores the states that its actuators propose, breadth first and up to a limit, and so builds a
graph from a start to a goal. Vertices are taken up in the order in which they were added; equal states
share a vertex. `Synthesis.asked` keeps what the actuators were asked and what they answered, so that every
edge can be traced back to an answer. A synthesis that needs a footprint which overflows is given up
(`Synthesis.overflowed`). -/

namespace Intendant

/-- The limits of a planner. -/
structure PlannerLimits where
  /-- The number of vertices at which the exploration ends. -/
  states : Nat
  /-- The number of candidates that are looked at in one answer. -/
  candidates : Nat
  /-- The number of states that are tied to the goal when no path leads there. -/
  opportunistic : Nat
deriving DecidableEq, Repr

/-- One question to an actuator: which one was asked, about which vertex and state, and its answer. -/
structure Asked where
  actuator : Nat
  vertex : Nat
  state : State
  answer : Except ActuatorError (List Candidate)

/-- A graph between a start and a goal. -/
structure Synthesis where
  graph : Graph State Float
  /-- Whether a path to the goal was found. -/
  hasGoal : Bool
  asked : Array Asked
  /-- Whether a footprint that was needed overflowed. This ends the program: the synthesis is what there was
      at that moment, and its graph is not handed out. -/
  overflowed : Bool := false

namespace Synthesis

/-- The vertex of the start. -/
def startId : Nat := 0

/-- The vertex of the goal. -/
def goalId : Nat := 1

/-- The target key of the state in the middle of a shortcut. -/
def intermediateKey : String := "intermediate"

/-- The factor on the cost of a shortcut where the last state before the goal is leaner than the start. -/
def shortcutPenalty : Float := 1.01

/-- The synthesis before anything is explored: the start and the goal, and no edge. -/
def initial (start goal : State) : Synthesis where
  graph := (Graph.empty.addVertex start).addVertex goal
  hasGoal := false
  asked := #[]

section Exploration
variable {σ : Type} (limits : PlannerLimits) (goal : State) (ps : Profiles)

/-- Takes in one candidate of a vertex: an edge to the newest vertex with its state, or to a new one while
    there is room. A new vertex whose state is better than the goal gets an edge to the goal. -/
def takeIn (vertex : Nat) (s : Synthesis) (c : Candidate) : Synthesis :=
  match s.graph.newest? c.state with
  | some known => { s with graph := s.graph.addEdge vertex known c.utility c.action }
  | none =>
    if limits.states ≤ s.graph.size then s
    else
      let fresh := s.graph.size
      let graph := (s.graph.addVertex c.state).addEdge vertex fresh c.utility c.action
      if c.state.isBetter goal ps then
        { s with graph := graph.addEdge fresh goalId 0.0 { name := Action.done }, hasGoal := true }
      else { s with graph := graph }

/-- Asks the actuators from number `index` on about a vertex, until the graph is full. An actuator that
    fails contributes nothing. -/
def visit (vertex : Nat) (state : State) : Nat → List (Actuator σ) → Synthesis → σ → Synthesis × σ
  | _, [], s, w => (s, w)
  | index, a :: rest, s, w =>
    let (answer, w) := a.nextState state goal ps w
    let s := { s with asked := s.asked.push ⟨index, vertex, state, answer⟩ }
    match answer with
    | .error _ => visit vertex state (index + 1) rest s w
    | .ok candidates =>
      let s := (candidates.take limits.candidates).foldl (takeIn limits goal ps vertex) s
      if limits.states ≤ s.graph.size then (s, w) else visit vertex state (index + 1) rest s w

/-- The vertex that is taken up after another one. The goal is never taken up. -/
def following (vertex : Nat) : Nat := if vertex = startId then goalId + 1 else vertex + 1

/-- Takes up the vertices from a given one on, while there are any and there is room. -/
def explore (actuators : List (Actuator σ)) (vertex : Nat) (s : Synthesis) (w : σ) : Synthesis × σ :=
  if _h : vertex < s.graph.size ∧ s.graph.size < limits.states then
    match s.graph.value? vertex with
    | some state =>
      let (s, w) := visit limits goal ps vertex state 0 actuators s w
      explore actuators (following vertex) s w
    | none => (s, w)
  else (s, w)
termination_by limits.states - vertex
decreasing_by
  unfold following
  split <;> simp_all [startId, goalId] <;> omega

end Exploration

/-- The state in the middle of a shortcut. -/
def intermediate (start : State) : State :=
  { start with intent := { start.intent with targetKey := intermediateKey } }

/-- The synthesis with a shortcut of the given cost: a way from the start to the goal over a vertex of its own. -/
def detoured (start : State) (cost : Float) (s : Synthesis) : Synthesis :=
  let tied := (s.graph.addVertex (intermediate start)).addEdge startId s.graph.size cost { name := Action.done }
  { s with graph := tied.addEdge s.graph.size goalId 0.0 { name := Action.done }, hasGoal := true }

/-- The synthesis that is given up for a footprint. At that moment a path to the goal has been found, and no
    vertex has been added for it. -/
def givenUp (s : Synthesis) : Synthesis := { s with hasGoal := true, overflowed := true }

/-- Whether the last state before the goal is leaner than the start: it has fewer pods, or else a smaller
    footprint, which is looked at only then and may overflow. -/
def leaner? (start last : State) : Option Bool :=
  if last.pods.size < start.pods.size then some true else last.lessResources? start

/-- The cost of a shortcut along so many hops to the last state before the goal: their number, and a little
    more where that state is leaner than the start. -/
def shortcutCost? (start last : State) (hops : Nat) : Option Float :=
  (leaner? start last).map fun leaner => if leaner then Float.ofNat hops * shortcutPenalty else Float.ofNat hops

/-- Offers a shortcut. It costs the number of hops of the shortest path to the last state before the goal, and
    a little more where that state is leaner than the start. Without a path it is not offered. -/
def withShortcut (start : State) (s : Synthesis) : Synthesis :=
  match s.graph.solve startId goalId .hops noEstimate with
  | .found path _ =>
    match path.dropLast.getLast? with
    | none => s
    | some lastId =>
      let hops := path.length - 2
      let cost := match s.graph.value? lastId with
        | some last => shortcutCost? start last hops
        | none => some (Float.ofNat hops)
      match cost with
      | some cost => s.detoured start cost
      | none => s.givenUp
  | _ => s

/-- The exploration before a shortcut is offered. -/
def explored {σ : Type} (limits : PlannerLimits) (actuators : List (Actuator σ)) (start goal : State) (ps : Profiles)
    (w : σ) : Synthesis × σ :=
  explore limits goal ps actuators startId (initial start goal) w

/-- A start that is better than the goal already gets a shortcut, if there is any edge at all. -/
def finished (start goal : State) (ps : Profiles) (s : Synthesis) : Synthesis :=
  if start.isBetter goal ps && 0 < s.graph.edgeCount then s.withShortcut start else s

/-- The graph that a planner synthesizes, with what the actuators remember afterwards. -/
def build {σ : Type} (limits : PlannerLimits) (actuators : List (Actuator σ)) (start goal : State) (ps : Profiles)
    (w : σ) : Synthesis × σ :=
  let (s, w) := explored limits actuators start goal ps w
  (finished start goal ps s, w)

end Synthesis
end Intendant
