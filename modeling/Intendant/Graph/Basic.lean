import Intendant.Action

/-! # Graphs of states

A graph is a list of vertices in the order in which they were added; the place of a vertex in it is its id.
Every vertex holds a value and its outgoing edges, in the order in which those were added. Equal values may
stand in several vertices. -/

namespace Intendant

/-- An edge out of a vertex. -/
structure Edge (κ : Type) where
  target : Nat
  utility : κ
  action : Action

/-- A vertex with its outgoing edges. -/
structure Vertex (ν κ : Type) where
  value : ν
  edges : Array (Edge κ)

/-- A directed graph with several edges between two vertices. -/
structure Graph (ν κ : Type) where
  vertices : Array (Vertex ν κ)

namespace Graph
variable {ν κ : Type}

/-- The graph without vertices. -/
def empty : Graph ν κ := ⟨#[]⟩

/-- The number of vertices. -/
def size (g : Graph ν κ) : Nat := g.vertices.size

/-- The value of a vertex. -/
def value? (g : Graph ν κ) (id : Nat) : Option ν := g.vertices[id]?.map (·.value)

/-- The values in the order of their ids. -/
def values (g : Graph ν κ) : List ν := g.vertices.toList.map (·.value)

/-- The edges that leave a vertex, the oldest first. -/
def successors (g : Graph ν κ) (id : Nat) : List (Edge κ) :=
  match g.vertices[id]? with
  | some v => v.edges.toList
  | none => []

/-- The number of edges. -/
def edgeCount (g : Graph ν κ) : Nat := g.vertices.foldl (fun n v => n + v.edges.size) 0

/-- Adds a vertex without edges. Its id is the number of vertices before it. -/
def addVertex (g : Graph ν κ) (value : ν) : Graph ν κ := ⟨g.vertices.push ⟨value, #[]⟩⟩

/-- Adds an edge if both of its ends are vertices. -/
def addEdge (g : Graph ν κ) (source target : Nat) (utility : κ) (action : Action) : Graph ν κ :=
  if target < g.size then
    ⟨g.vertices.modify source fun v => { v with edges := v.edges.push ⟨target, utility, action⟩ }⟩
  else g

/-- The greatest id below a bound whose value is the given one. -/
def newestBelow? [DecidableEq ν] (g : Graph ν κ) (value : ν) : Nat → Option Nat
  | 0 => none
  | n + 1 =>
    match g.vertices[n]? with
    | some v => if v.value = value then some n else g.newestBelow? value n
    | none => g.newestBelow? value n

/-- The newest vertex with a value. -/
def newest? [DecidableEq ν] (g : Graph ν κ) (value : ν) : Option Nat := g.newestBelow? value g.size

end Graph
end Intendant
