import Intendant.Graph.Basic
import Intendant.Graph.OpenSet

/-! # Cheapest paths

`solve` looks for a cheap path between two vertices. It keeps for every vertex the best score so far and how
the vertex was reached; whenever a score improves, the vertex is taken up again. There is no set of finished
vertices, so an estimate may be anything.

Two things can keep the search from ending well: scores that fall for ever, and, where an edge has negative
utility, arrivals that lead round in a circle instead of back to the start. Both are the outcome
`endless`. -/

namespace Intendant

/-- What an edge costs: its utility, or one. -/
inductive CostMode where
  | utility
  | hops
deriving DecidableEq, Repr

/-- How a vertex was reached. -/
inductive Arrival where
  | start
  | via (predecessor : Nat) (action : Action)

/-- The outcome of a search. -/
inductive Route where
  /-- One of the ends is no vertex, or no path leads from the start to the goal. -/
  | unreachable
  /-- The search does not come to an end. -/
  | endless
  /-- The vertices of a path and the actions between them. -/
  | found (path : List Nat) (actions : List Action)
deriving DecidableEq

namespace Search
variable {ν κ : Type} [Cost κ]

/-- What a search knows: the vertices to be taken up, the best scores and the arrivals. -/
structure Progress (κ : Type) where
  openSet : OpenSet Nat κ
  scores : Array (Option κ)
  arrivals : Array (Option Arrival)

/-- The progress before the first vertex is taken up. -/
def Progress.initial (size start : Nat) : Progress κ where
  openSet := OpenSet.empty.push start Cost.zero
  scores := (Array.replicate size none).setIfInBounds start (some Cost.zero)
  arrivals := (Array.replicate size none).setIfInBounds start (some .start)

/-- The best score of a vertex so far. -/
def Progress.score? (p : Progress κ) (id : Nat) : Option κ := p.scores[id]?.join

/-- Whether a score is the first one of a vertex or better than the known one. -/
def Progress.improves (p : Progress κ) (id : Nat) (score : κ) : Bool :=
  match p.score? id with
  | some known => Cost.less score known
  | none => true

/-- What an edge costs in a mode: its utility, or one hop. -/
def edgeCost (mode : CostMode) (e : Edge κ) : κ :=
  match mode with
  | .utility => e.utility
  | .hops => Cost.one

/-- Reaches the target of an edge where that improves on the way known to it. -/
def relax (g : Graph ν κ) (mode : CostMode) (estimate : ν → κ) (current : Nat) (score : κ) (p : Progress κ)
    (e : Edge κ) : Progress κ :=
  let tentative := Cost.add score (edgeCost mode e)
  if p.improves e.target tentative then
    match g.value? e.target with
    | some value =>
      { openSet := p.openSet.push e.target (Cost.add tentative (estimate value))
        scores := p.scores.setIfInBounds e.target (some tentative)
        arrivals := p.arrivals.setIfInBounds e.target (some (.via current e.action)) }
    | none => p
  else p

/-- Follows all the edges that leave a vertex. -/
def expand (g : Graph ν κ) (mode : CostMode) (estimate : ν → κ) (current : Nat) (p : Progress κ) : Progress κ :=
  (g.successors current).foldl (relax g mode estimate current ((p.score? current).getD Cost.zero)) p

/-- The path that the arrivals lead back from a vertex, if it is shorter than the bound. -/
def path? (arrivals : Array (Option Arrival)) : Nat → Nat → Option (List Nat × List Action)
  | 0, _ => none
  | bound + 1, current =>
    match arrivals[current]? with
    | some (some (.via predecessor action)) => do
      let (path, actions) ← path? arrivals bound predecessor
      return (path ++ [current], actions ++ [action])
    | _ => some ([current], [])

/-- The path to a vertex. A path without a circle has no more vertices than the graph. -/
def Progress.route (p : Progress κ) (current : Nat) : Route :=
  match path? p.arrivals (p.arrivals.size + 1) current with
  | some (path, actions) => .found path actions
  | none => .endless

/-- Takes up vertices until the goal is taken or none is left. -/
def run (g : Graph ν κ) (goal : Nat) (mode : CostMode) (estimate : ν → κ) : Nat → Progress κ → Route
  | 0, _ => .endless
  | rounds + 1, p =>
    match p.openSet.pop? with
    | none => .unreachable
    | some ((current, _), rest) =>
      if current = goal then p.route current
      else run g goal mode estimate rounds (expand g mode estimate current { p with openSet := rest })

/-- A search of at most so many rounds. -/
def within (rounds : Nat) (g : Graph ν κ) (start goal : Nat) (mode : CostMode) (estimate : ν → ν → κ) : Route :=
  match g.value? goal, g.value? start with
  | some target, some _ => run g goal mode (estimate · target) rounds (.initial g.size start)
  | _, _ => .unreachable

end Search

namespace Graph
variable {ν : Type}

/-- A score of doubles can fall only as often as there are doubles below it, and every round but the first
    goes back to a score that fell, so a search in doubles ends within this number of rounds. -/
def enoughRounds (g : Graph ν Float) : Nat := (g.size + 1) * Nat.pow 2 65

/-- A cheap path between two vertices, where `estimate` guesses the remaining cost. -/
def solve (g : Graph ν Float) (start goal : Nat) (mode : CostMode) (estimate : ν → ν → Float) : Route :=
  Search.within g.enoughRounds g start goal mode estimate

end Graph

/-- The estimate that knows nothing. -/
def noEstimate {ν : Type} (_ _ : ν) : Float := 0.0

end Intendant
