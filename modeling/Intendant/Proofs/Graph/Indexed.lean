import Intendant.Proofs.Graph.Progress
import Intendant.Proofs.Graph.Tables

/-! # Searches in tables

A search in the tables of a graph reads and writes its scores and arrivals by index, and an index out of bounds gives it no
outcome. All edges of a graph that calls make lead to vertices, so the search only meets vertices (`Search.Fits`), and it
has the outcome of the search in the graph (`Tables.within?_tables`). -/

namespace Intendant
open Search (Progress edgeCost)
variable {ν κ : Type}

/-- Writes at an index, which has to be in bounds. -/
def set? {α : Type} (xs : Array α) (i : Nat) (x : α) : Option (Array α) :=
  if i < xs.size then some (xs.setIfInBounds i x) else none

theorem set?_of_lt {α : Type} {xs : Array α} {i : Nat} (h : i < xs.size) (x : α) :
    set? xs i x = some (xs.setIfInBounds i x) := if_pos h

/-- Steps that may fail, none of which does where a property holds that they preserve. -/
theorem foldlM_eq_some {α σ : Type} {P : σ → Prop} {f? : σ → α → Option σ} {f : σ → α → σ} {xs : List α}
    (hstep : ∀ s, P s → ∀ x ∈ xs, f? s x = some (f s x) ∧ P (f s x)) {s : σ} (hs : P s) :
    xs.foldlM f? s = some (xs.foldl f s) ∧ P (xs.foldl f s) := by
  induction xs generalizing s with
  | nil => exact ⟨rfl, hs⟩
  | cons x xs ih =>
    obtain ⟨hx, hP⟩ := hstep s hs x List.mem_cons_self
    rw [List.foldlM_cons, hx, List.foldl_cons]
    exact ih (fun s hs y hy => hstep s hs y (List.mem_cons_of_mem x hy)) hP

namespace Tables

section
variable [Cost κ] (t : Tables ν κ) (mode : CostMode)

/-- Follows an edge. -/
def relax? (estimate : ν → κ) (current : Nat) (score : κ) (p : Progress κ) (e : Edge κ) : Option (Progress κ) := do
  let tentative := Cost.add score (edgeCost mode e)
  let known ← p.scores[e.target]?
  if known.all (Cost.less tentative) then
    match t.values[e.target]? with
    | some value =>
      let scores ← set? p.scores e.target (some tentative)
      let arrivals ← set? p.arrivals e.target (some (.via current e.action))
      return ⟨p.openSet.push e.target (Cost.add tentative (estimate value)), scores, arrivals⟩
    | none => return p
  else return p

/-- Follows the edges out of a vertex. -/
def expand? (estimate : ν → κ) (current : Nat) (p : Progress κ) : Option (Progress κ) := do
  let score ← p.scores[current]?
  (t.edgesOf current).foldlM (t.relax? mode estimate current (score.getD Cost.zero)) p

/-- Takes up vertices until the goal is taken or none is left. -/
def run? (goal : Nat) (estimate : ν → κ) : Nat → Progress κ → Option Route
  | 0, _ => some .endless
  | rounds + 1, p =>
    match p.openSet.pop? with
    | none => some .unreachable
    | some ((current, _), rest) =>
      if current = goal then some (p.route current)
      else do run? goal estimate rounds (← t.expand? mode estimate current { p with openSet := rest })

/-- A search of at most so many rounds. -/
def within? (rounds start goal : Nat) (estimate : ν → ν → κ) : Option Route :=
  match t.values[goal]?, t.values[start]? with
  | some target, some _ => do
    let scores ← set? (Array.replicate t.values.size none) start (some Cost.zero)
    let arrivals ← set? (Array.replicate t.values.size none) start (some .start)
    t.run? mode goal (estimate · target) rounds ⟨OpenSet.empty.push start Cost.zero, scores, arrivals⟩
  | _, _ => some .unreachable

end
end Tables

/-! ### Searches meet vertices only -/

/-- There is a score and an arrival for every vertex, and only vertices are open. -/
structure Search.Fits (g : Graph ν κ) (p : Progress κ) : Prop where
  scores : p.scores.size = g.size
  arrivals : p.arrivals.size = g.size
  queued : ∀ x ∈ p.openSet.entries, x.2 < g.size

namespace Search
variable [Cost κ] {g : Graph ν κ} {p : Progress κ} {mode : CostMode} {estimate : ν → κ} {u v start goal : Nat}
  {s k : κ} {a : Arrival} {e : Edge κ}

theorem Fits.initial (hstart : start < g.size) : Fits g (.initial g.size start) where
  scores := by simp [Progress.initial]
  arrivals := by simp [Progress.initial]
  queued x hx := by
    rcases OpenSet.mem_push.mp hx with rfl | hx
    · exact hstart
    · cases hx

theorem Fits.reach (h : Fits g p) (hv : v < g.size) : Fits g (p.reach v s k a) where
  scores := by rw [Progress.reach, Array.size_setIfInBounds, h.scores]
  arrivals := by rw [Progress.reach, Array.size_setIfInBounds, h.arrivals]
  queued x hx := by
    rcases OpenSet.mem_push.mp hx with rfl | hx
    · exact hv
    · exact h.queued x hx

theorem Fits.relax (h : Fits g p) (e : Edge κ) : Fits g (relax g mode estimate v s p e) := by
  rcases relax_cases g mode estimate v s p e with ⟨heq, -⟩ | ⟨value, hvalue, -, heq⟩
  · rwa [heq]
  · rw [heq]
    exact h.reach (Graph.lt_size_of_value? hvalue)

omit [Cost κ] in
theorem Fits.taken (h : Fits g p) {x : Nat × κ} {rest : OpenSet Nat κ} (hpop : p.openSet.pop? = some (x, rest)) :
    x.1 < g.size ∧ Fits g { p with openSet := rest } := by
  have hentries : p.openSet.entries = (x.2, x.1) :: rest.entries := OpenSet.pop?_eq_some.mp hpop
  have hqueued := h.queued
  rw [hentries, List.forall_mem_cons] at hqueued
  exact ⟨hqueued.1, h.scores, h.arrivals, hqueued.2⟩

omit [Cost κ] in
theorem Fits.getElem?_scores (h : Fits g p) (hv : v < g.size) : p.scores[v]? = some (p.score? v) := by
  rw [Progress.score?, Array.getElem?_eq_getElem (h.scores.symm ▸ hv)]
  rfl

theorem relax?_tables (h : Fits g p) (he : e.target < g.size) :
    g.tables.relax? mode estimate v s p e = some (relax g mode estimate v s p e) := by
  have hscores : e.target < p.scores.size := h.scores.symm ▸ he
  have harrivals : e.target < p.arrivals.size := h.arrivals.symm ▸ he
  have himproves : ∀ r, (p.score? e.target).all (Cost.less r) = p.improves e.target r := by
    intro r
    rw [Progress.improves]
    cases p.score? e.target <;> rfl
  rw [Tables.relax?, h.getElem?_scores he, relax]
  simp only [Option.bind_eq_bind, Option.bind_some, himproves, Graph.getElem?_values_tables,
    set?_of_lt hscores, set?_of_lt harrivals]
  split
  · cases g.value? e.target <;> rfl
  · rfl

theorem expand?_tables (mode : CostMode) (estimate : ν → κ) (hg : g.Closed) (h : Fits g p) (hv : v < g.size) :
    g.tables.expand? mode estimate v p = some (expand g mode estimate v p) ∧ Fits g (expand g mode estimate v p) := by
  have hstep : ∀ q, Fits g q → ∀ e ∈ g.successors v,
      g.tables.relax? mode estimate v ((p.score? v).getD Cost.zero) q e =
        some (relax g mode estimate v ((p.score? v).getD Cost.zero) q e) ∧
      Fits g (relax g mode estimate v ((p.score? v).getD Cost.zero) q e) :=
    fun q hq e he => ⟨relax?_tables hq (hg v e he), hq.relax e⟩
  rw [Tables.expand?, h.getElem?_scores hv, Graph.edgesOf_tables, expand]
  exact foldlM_eq_some hstep h

theorem run?_tables (hg : g.Closed) (rounds : Nat) (h : Fits g p) :
    g.tables.run? mode goal estimate rounds p = some (run g goal mode estimate rounds p) := by
  induction rounds generalizing p with
  | zero => rfl
  | succ rounds ih =>
    rw [Tables.run?, run]
    cases hpop : p.openSet.pop? with
    | none => rfl
    | some x =>
      obtain ⟨⟨current, priority⟩, rest⟩ := x
      obtain ⟨hcurrent, hrest⟩ := h.taken hpop
      obtain ⟨hexpand, hfits⟩ := expand?_tables mode estimate hg hrest hcurrent
      dsimp only
      split
      · rfl
      · rw [hexpand]
        exact ih hfits

theorem within?_tables (hg : g.Closed) (rounds start goal : Nat) (mode : CostMode) (estimate : ν → ν → κ) :
    g.tables.within? mode rounds start goal estimate = some (within rounds g start goal mode estimate) := by
  rw [Tables.within?, within, Graph.getElem?_values_tables, Graph.getElem?_values_tables]
  cases g.value? goal with
  | none => rfl
  | some target =>
    cases hstart : g.value? start with
    | none => rfl
    | some value =>
      have hlt : start < g.size := Graph.lt_size_of_value? hstart
      have hreplicate : ∀ {α : Type} (x : α), start < (Array.replicate g.size x).size := by
        intro α x
        rwa [Array.size_replicate]
      simp only [Graph.size_values_tables, set?_of_lt (hreplicate _), Option.bind_eq_bind, Option.bind_some]
      exact run?_tables hg rounds (.initial hlt)

end Search

open GraphCall (value? accepted) in
/-- The tables that calls make are those of the graph that they make, and are in step. Values have the ids in which they were
    added and keep them, and every vertex keeps the accepted edges out of it in their order. An edge without both of its ends
    changes nothing. Every search in the tables has the outcome of the search in the graph, so it never goes out of bounds.
    Looking a value up finds the last id whose value is equal, whatever is taken for equal. -/
theorem Tables.kept_in_step [Cost κ] (calls : List (GraphCall ν κ)) :
    Tables.ofCalls calls = (Graph.ofCalls calls).tables ∧ (Tables.ofCalls calls).InStep ∧
      (Tables.ofCalls calls).values.toList = calls.filterMap value? ∧
      (∀ value, ((Tables.ofCalls calls).addVertex value).2 = (calls.filterMap value?).length) ∧
      (∀ u, (Tables.ofCalls calls).edgesOf u = ((accepted 0 calls).filter (·.1 = u)).map (·.2)) ∧
      (∀ more, (Tables.ofCalls calls).values.toList <+: (Tables.ofCalls (calls ++ more)).values.toList ∧
        ∀ u, (Tables.ofCalls calls).edgesOf u <+: (Tables.ofCalls (calls ++ more)).edgesOf u) ∧
      (∀ source target utility action,
        ¬(source < (Tables.ofCalls calls).values.size ∧ target < (Tables.ofCalls calls).values.size) →
        (Tables.ofCalls calls).addEdge source target utility action = Tables.ofCalls calls ∧
        (Graph.ofCalls calls).addEdge source target utility action = Graph.ofCalls calls) ∧
      (∀ mode rounds start goal estimate, (Tables.ofCalls calls).within? mode rounds start goal estimate =
        some (Search.within rounds (Graph.ofCalls calls) start goal mode estimate)) ∧
      (∀ same value, (∀ u, (Tables.ofCalls calls).lookup? same value = some u ↔
          (∃ w, (Tables.ofCalls calls).values[u]? = some w ∧ same w value = true) ∧
          ∀ v w, u < v → (Tables.ofCalls calls).values[v]? = some w → same w value = false) ∧
        ((Tables.ofCalls calls).lookup? same value = none ↔
          ∀ (v : Nat) (w : ν), (Tables.ofCalls calls).values[v]? = some w → same w value = false)) ∧
      ∀ [DecidableEq ν] (value : ν),
        (Graph.ofCalls calls).newest? value = (Tables.ofCalls calls).lookup? (fun v w => decide (v = w)) value := by
  have hclosed : (Graph.ofCalls calls).Closed := Graph.closed_ofCalls calls
  have hvalues : (Graph.ofCalls calls).tables.values.toList = calls.filterMap value? :=
    (Graph.toList_values_tables _).trans (Graph.values_ofCalls calls)
  have hids : ∀ value, ((Graph.ofCalls calls).tables.addVertex value).2 = (calls.filterMap value?).length := by
    intro value
    rw [← hvalues, Array.length_toList, addVertex, Array.size_push, Nat.add_sub_cancel]
  have hkept : ∀ more, (Graph.ofCalls calls).tables.values.toList <+: (Graph.ofCalls (calls ++ more)).tables.values.toList ∧
      ∀ u, (Graph.ofCalls calls).tables.edgesOf u <+: (Graph.ofCalls (calls ++ more)).tables.edgesOf u := by
    intro more
    simp only [Graph.toList_values_tables, Graph.edgesOf_tables, Graph.ofCalls_append, Graph.values_foldl,
      Graph.successors_foldl]
    exact ⟨List.prefix_append .., fun u => List.prefix_append ..⟩
  have hrefused : ∀ source target utility action, ¬(source < (Graph.ofCalls calls).tables.values.size ∧
        target < (Graph.ofCalls calls).tables.values.size) →
      (Graph.ofCalls calls).tables.addEdge source target utility action = (Graph.ofCalls calls).tables ∧
      (Graph.ofCalls calls).addEdge source target utility action = Graph.ofCalls calls := by
    intro source target utility action h
    rw [Graph.size_values_tables] at h
    have hgraph : (Graph.ofCalls calls).addEdge source target utility action = Graph.ofCalls calls := Graph.addEdge_of_not h
    exact ⟨by rw [← Graph.tables_addEdge, hgraph], hgraph⟩
  refine ⟨(Graph.tables_ofCalls calls).symm, ?_⟩
  simp only [← Graph.tables_ofCalls]
  exact ⟨hclosed.inStep, hvalues, hids, fun u => (Graph.edgesOf_tables _ u).trans (Graph.successors_ofCalls calls u),
    hkept, hrefused, fun mode rounds start goal estimate => Search.within?_tables hclosed rounds start goal mode estimate,
    fun _ _ => ⟨fun _ => lookup?_eq_some_iff, lookup?_eq_none_iff⟩, fun value => (Graph.lookup?_tables _ value).symm⟩

/-- An edge to a vertex that does not exist is refused by a graph in which a value stands twice. -/
theorem Tables.kept_in_step_refused :
    let calls : List (GraphCall String Float) := [.addVertex "a", .addVertex "b", .addEdge 0 1 1.0 ⟨"x", .none⟩, .addVertex "a"]
    ¬(0 < (Tables.ofCalls calls).values.size ∧ 3 < (Tables.ofCalls calls).values.size) ∧
      (Tables.ofCalls calls).addEdge 0 3 1.0 ⟨"y", .none⟩ = Tables.ofCalls calls ∧
      (Tables.ofCalls calls).values.toList = ["a", "b", "a"] := by
  intro calls
  have hsize : ¬(0 < (Tables.ofCalls calls).values.size ∧ 3 < (Tables.ofCalls calls).values.size) := by decide
  obtain ⟨-, -, hvalues, -, -, -, hrefused, -⟩ := Tables.kept_in_step calls
  exact ⟨hsize, (hrefused 0 3 1.0 ⟨"y", .none⟩ hsize).1, hvalues⟩

end Intendant
