import Intendant.Graph.Search
import Intendant.Proofs.Graph.Walk

/-! # Other utilities

A graph with other utilities on its edges has the same vertices and the same walks. A search that counts hops takes
the same way through it. -/

namespace Intendant

/-- The edge with its utility in other costs. -/
def Edge.repriced {κ κ' : Type} (f : κ → κ') (e : Edge κ) : Edge κ' := ⟨e.target, f e.utility, e.action⟩

namespace Graph
variable {ν κ κ' : Type} (f : κ → κ') (g : Graph ν κ) {u v : Nat}

/-- The graph with the utility of every edge replaced. -/
def repriced : Graph ν κ' := ⟨g.vertices.map fun v => ⟨v.value, v.edges.map (·.repriced f)⟩⟩

@[simp] theorem size_repriced : (g.repriced f).size = g.size := by
  simp [size, repriced]

@[simp] theorem value?_repriced (u : Nat) : (g.repriced f).value? u = g.value? u := by
  simp only [value?, repriced, Array.getElem?_map]
  cases g.vertices[u]? <;> rfl

@[simp] theorem successors_repriced (u : Nat) : (g.repriced f).successors u = (g.successors u).map (·.repriced f) := by
  simp only [successors, repriced, Array.getElem?_map]
  cases g.vertices[u]? <;> simp

variable {f g}

theorem Walk.repriced {es : List (Edge κ)} (h : g.Walk u es v) : (g.repriced f).Walk u (es.map (·.repriced f)) v := by
  induction es generalizing u with
  | nil => exact h
  | cons e es ih =>
    refine ⟨?_, ih h.2⟩
    rw [successors_repriced]
    exact List.mem_map_of_mem h.1

theorem exists_of_walk_repriced {fs : List (Edge κ')} (h : (g.repriced f).Walk u fs v) :
    ∃ es, g.Walk u es v ∧ fs = es.map (·.repriced f) := by
  induction fs generalizing u with
  | nil => exact ⟨[], h, rfl⟩
  | cons e' fs ih =>
    obtain ⟨he', hfs⟩ := h
    rw [successors_repriced] at he'
    obtain ⟨e, he, rfl⟩ := List.mem_map.mp he'
    obtain ⟨es, hes, rfl⟩ := ih hfs
    exact ⟨e :: es, ⟨he, hes⟩, rfl⟩

theorem visited_repriced (u : Nat) (es : List (Edge κ)) : visited u (es.map (·.repriced f)) = visited u es := by
  simp [visited, Edge.repriced]

theorem actions_repriced (es : List (Edge κ)) : (es.map (·.repriced f)).map (·.action) = es.map (·.action) := by
  simp [Edge.repriced]

end Graph

namespace Search
variable {ν κ : Type} [Cost κ] (f : κ → κ) (g : Graph ν κ) (estimate : ν → κ) {goal : Nat}

theorem relax_repriced (v : Nat) (s : κ) (p : Progress κ) (e : Edge κ) :
    relax (g.repriced f) .hops estimate v s p (e.repriced f) = relax g .hops estimate v s p e := by
  unfold relax
  rw [Graph.value?_repriced]
  rfl

theorem expand_repriced (v : Nat) (p : Progress κ) :
    expand (g.repriced f) .hops estimate v p = expand g .hops estimate v p := by
  simp only [expand, Graph.successors_repriced, List.foldl_map, relax_repriced]

theorem run_repriced (rounds : Nat) (p : Progress κ) :
    run (g.repriced f) goal .hops estimate rounds p = run g goal .hops estimate rounds p := by
  induction rounds generalizing p with
  | zero => rfl
  | succ rounds ih => simp only [run, expand_repriced, ih]

theorem within_repriced (rounds start goal : Nat) (estimate : ν → ν → κ) :
    within rounds (g.repriced f) start goal .hops estimate = within rounds g start goal .hops estimate := by
  simp only [within, Graph.value?_repriced, Graph.size_repriced, run_repriced]

end Search

theorem Graph.solve_repriced {ν : Type} (f : Float → Float) (g : Graph ν Float) (start goal : Nat)
    (estimate : ν → ν → Float) :
    (g.repriced f).solve start goal .hops estimate = g.solve start goal .hops estimate := by
  simp only [Graph.solve, Graph.enoughRounds, Graph.size_repriced, Search.within_repriced]

end Intendant
