import Mathlib.Data.Nat.Find
import Intendant.Proofs.Graph.Basic

/-! # Walks

A walk follows edges, and a vertex reaches another one if some walk leads there. A path as a search gives it
back, a list of vertices with the actions between them, belongs to a walk (`Walk.isPath`). -/

namespace Intendant.Graph
variable {ν κ : Type} {g : Graph ν κ}

/-- The edges lead from one vertex to another one, each starting where the one before it ends. -/
def Walk (g : Graph ν κ) : Nat → List (Edge κ) → Nat → Prop
  | u, [], v => u = v
  | u, e :: es, v => e ∈ g.successors u ∧ Walk g e.target es v

/-- Some walk leads from one vertex to another one. -/
def Reaches (g : Graph ν κ) (u v : Nat) : Prop := ∃ es, g.Walk u es v

/-- The fewest hops that lead from one vertex to another one. -/
def Hops (g : Graph ν κ) (u v n : Nat) : Prop :=
  (∃ es, g.Walk u es v ∧ es.length = n) ∧ ∀ es, g.Walk u es v → n ≤ es.length

/-- The vertices that edges lead to from a vertex, that one included. -/
def visited (u : Nat) (es : List (Edge κ)) : List Nat := u :: es.map (·.target)

/-- The actions lead along the vertices of the path, which starts and ends at the given vertices and meets
    none twice. -/
structure IsPath (g : Graph ν κ) (start goal : Nat) (path : List Nat) (actions : List Action) : Prop where
  first : path.head? = some start
  last : path.getLast? = some goal
  distinct : path.Nodup
  length : path.length = actions.length + 1
  edge : ∀ (i u v : Nat) (a : Action), path[i]? = some u → path[i + 1]? = some v → actions[i]? = some a →
    ∃ e ∈ g.successors u, e.target = v ∧ e.action = a

theorem Walk.append {u v x : Nat} {es fs : List (Edge κ)} (h : g.Walk u es v) (h' : g.Walk v fs x) :
    g.Walk u (es ++ fs) x := by
  induction es generalizing u with
  | nil =>
    cases h
    exact h'
  | cons e es ih => exact ⟨h.1, ih h.2⟩

theorem Walk.concat {u v : Nat} {es : List (Edge κ)} {e : Edge κ} (h : g.Walk u es v) (he : e ∈ g.successors v) :
    g.Walk u (es ++ [e]) e.target :=
  h.append ⟨he, rfl⟩

theorem Walk.mono {g' : Graph ν κ} (hsub : ∀ x, ∀ e ∈ g.successors x, e ∈ g'.successors x) {u v : Nat}
    {es : List (Edge κ)} (h : g.Walk u es v) : g'.Walk u es v := by
  induction es generalizing u with
  | nil => exact h
  | cons e es ih => exact ⟨hsub u e h.1, ih h.2⟩

theorem Walk.rest {u v x : Nat} {es fs : List (Edge κ)} (h : g.Walk u es v) (h' : g.Walk u (es ++ fs) x) :
    g.Walk v fs x := by
  induction es generalizing u with
  | nil =>
    cases h
    exact h'
  | cons e es ih => exact ih h.2 h'.2

theorem walk_concat_iff {u v : Nat} {es : List (Edge κ)} {e : Edge κ} :
    g.Walk u (es ++ [e]) v ↔ ∃ x, g.Walk u es x ∧ e ∈ g.successors x ∧ e.target = v := by
  induction es generalizing u with
  | nil => exact ⟨fun h => ⟨u, rfl, h⟩, fun ⟨_, hx, h⟩ => hx ▸ h⟩
  | cons f es ih =>
    constructor
    · rintro ⟨hf, hrest⟩
      obtain ⟨x, hes, he⟩ := ih.mp hrest
      exact ⟨x, ⟨hf, hes⟩, he⟩
    · rintro ⟨x, ⟨hf, hes⟩, he⟩
      exact ⟨hf, ih.mpr ⟨x, hes, he⟩⟩

theorem Walk.getLast? {u v : Nat} {es : List (Edge κ)} (h : g.Walk u es v) : (visited u es).getLast? = some v := by
  induction es generalizing u with
  | nil =>
    cases h
    rfl
  | cons e es ih =>
    rw [visited, List.map_cons, List.getLast?_cons_cons]
    exact ih h.2

theorem Walk.eq_nil {u : Nat} {es : List (Edge κ)} (h : g.Walk u es u) (hn : (visited u es).Nodup) : es = [] := by
  cases es with
  | nil => rfl
  | cons e es =>
    have hlast : u ∈ (visited e.target es) := List.mem_of_getLast? h.2.getLast?
    exact absurd hlast (List.nodup_cons.mp hn).1

theorem Walk.edge {u v : Nat} {es : List (Edge κ)} (h : g.Walk u es v) {i a b : Nat} {action : Action}
    (ha : (visited u es)[i]? = some a) (hb : (visited u es)[i + 1]? = some b)
    (haction : (es.map (·.action))[i]? = some action) : ∃ e ∈ g.successors a, e.target = b ∧ e.action = action := by
  induction es generalizing u i with
  | nil => simp at haction
  | cons e es ih =>
    cases i with
    | zero =>
      obtain rfl : u = a := by simpa [visited] using ha
      exact ⟨e, h.1, by simpa [visited] using hb, by simpa using haction⟩
    | succ i => exact ih h.2 (by simpa [visited] using ha) (by simpa [visited] using hb) (by simpa using haction)

/-- A walk that meets no vertex twice gives a path. -/
theorem Walk.isPath {u v : Nat} {es : List (Edge κ)} (h : g.Walk u es v) (hn : (visited u es).Nodup) :
    g.IsPath u v (visited u es) (es.map (·.action)) where
  first := rfl
  last := h.getLast?
  distinct := hn
  length := by simp [visited]
  edge _ _ _ _ ha hb hc := h.edge ha hb hc

theorem visited_concat (u : Nat) (es : List (Edge κ)) (e : Edge κ) :
    visited u (es ++ [e]) = visited u es ++ [e.target] := by
  simp [visited]

theorem Reaches.refl (u : Nat) : g.Reaches u u := ⟨[], rfl⟩

theorem Reaches.step {u v : Nat} {e : Edge κ} (h : g.Reaches u v) (he : e ∈ g.successors v) :
    g.Reaches u e.target := by
  obtain ⟨es, hw⟩ := h
  exact ⟨es ++ [e], hw.concat he⟩

theorem Reaches.mono {g' : Graph ν κ} (hsub : ∀ x, ∀ e ∈ g.successors x, e ∈ g'.successors x) {u v : Nat}
    (h : g.Reaches u v) : g'.Reaches u v := by
  obtain ⟨es, hw⟩ := h
  exact ⟨es, hw.mono hsub⟩

theorem Reaches.last_edge {u v : Nat} (h : g.Reaches u v) (hne : u ≠ v) : ∃ x, ∃ e ∈ g.successors x, e.target = v := by
  obtain ⟨es, hw⟩ := h
  induction es generalizing u with
  | nil => exact absurd hw hne
  | cons e es ih =>
    by_cases heq : e.target = v
    · exact ⟨u, e, hw.1, heq⟩
    · exact ih heq hw.2

theorem Reaches.exists_hops {u v : Nat} (h : g.Reaches u v) : ∃ n, g.Hops u v n := by
  classical
  have hlength : ∃ n, ∃ es, g.Walk u es v ∧ es.length = n := by
    obtain ⟨es, hw⟩ := h
    exact ⟨es.length, es, hw, rfl⟩
  exact ⟨Nat.find hlength, Nat.find_spec hlength, fun es hw => Nat.find_min' hlength ⟨es, hw, rfl⟩⟩

/-- What a start satisfies and every edge passes on holds wherever the start reaches. -/
theorem Reaches.closed {u v : Nat} {P : Nat → Prop} (h : g.Reaches u v) (h0 : P u)
    (hs : ∀ x, P x → ∀ e ∈ g.successors x, P e.target) : P v := by
  obtain ⟨es, hw⟩ := h
  induction es generalizing u with
  | nil =>
    cases hw
    exact h0
  | cons e es ih => exact ih (hs u h0 e hw.1) hw.2

end Intendant.Graph
