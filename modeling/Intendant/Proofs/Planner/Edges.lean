import Mathlib.Data.List.Basic
import Intendant.Proofs.Planner.Charted

/-! # The edges of explored graphs

The edges of a vertex are known exactly, with their order: first the one into the goal, if the vertex is better than
it, then one edge for every candidate that was looked at when an actuator was asked about the vertex, as far as the
state of the candidate stands in the graph (`Grown.successors_eq`). While there is room every such state does. -/

namespace Intendant.Synthesis

/-- The edge that carries a candidate. It leads to the newest vertex with the proposed state, if there is one. -/
def carrying? (g : Graph State Float) (c : Candidate) : Option (Edge Float) :=
  (g.newest? c.state).map fun t => ⟨t, c.utility, c.action⟩

/-- The edge that a vertex has from the beginning, if it is behind the goal and better than it. -/
def entry (goal : State) (ps : Profiles) (g : Graph State Float) (u : Nat) : List (Edge Float) :=
  if goalId < u ∧ (g.value? u).any (·.isBetter goal ps) = true then [arrival] else []

/-- The candidates that were looked at for a vertex, in the order of the questions. -/
def proposals (limits : PlannerLimits) (s : Synthesis) (u : Nat) : List Candidate :=
  (s.asked.toList.filter (·.vertex = u)).flatMap (·.looked limits)

/-- The candidates offered to a vertex with one more for it. -/
def offering (offered : Nat → List Candidate) (v : Nat) (cs : List Candidate) (u : Nat) : List Candidate :=
  if u = v then offered u ++ cs else offered u

/-- The edges of a graph are those of the candidates that were offered to its vertices. -/
structure Accounted (limits : PlannerLimits) (goal : State) (ps : Profiles) (g : Graph State Float)
    (offered : Nat → List Candidate) : Prop where
  edges : ∀ u, g.successors u = entry goal ps g u ++ (offered u).filterMap (carrying? g)
  vertices : ∀ u, g.size ≤ u → offered u = []
  known : g.size < limits.states → ∀ u, ∀ c ∈ offered u, g.newest? c.state ≠ none

section
variable {limits : PlannerLimits} {goal : State} {ps : Profiles} {s : Synthesis} {g g' : Graph State Float}
  {c d : Candidate} {u v t : Nat} {e : Edge Float} {offered : Nat → List Candidate}

theorem carrying?_of_newest? (h : g.newest? c.state = some t) : carrying? g c = some ⟨t, c.utility, c.action⟩ := by
  rw [carrying?, h, Option.map_some]

theorem carrying?_eq_none (h : g.newest? c.state = none) : carrying? g c = none := by
  rw [carrying?, h, Option.map_none]

theorem carrying?_congr (h : g'.newest? c.state = g.newest? c.state) : carrying? g' c = carrying? g c := by
  rw [carrying?, carrying?, h]

theorem entry_congr (h : g'.value? u = g.value? u) : entry goal ps g' u = entry goal ps g u := by
  rw [entry, entry, h]

theorem mem_entry : e ∈ entry goal ps s.graph u ↔ Better goal ps s u ∧ e = arrival := by
  unfold entry Better
  split
  · rename_i h
    obtain ⟨hu, hany⟩ := h
    simp [hu, ← Option.any_eq_true, hany]
  · rename_i h
    refine iff_of_false List.not_mem_nil ?_
    rintro ⟨⟨hu, state, hvalue, hbetter⟩, -⟩
    exact h ⟨hu, by simp [hvalue, hbetter]⟩

@[simp] theorem offering_nil (offered : Nat → List Candidate) (v : Nat) : offering offered v [] = offered := by
  funext u
  simp [offering]

theorem offering_cons (offered : Nat → List Candidate) (v : Nat) (c : Candidate) (cs : List Candidate) :
    offering offered v (c :: cs) = offering (offering offered v [c]) v cs := by
  funext u
  unfold offering
  split <;> simp

theorem mem_offering {cs : List Candidate} (h : d ∈ offering offered v cs u) : d ∈ offered u ∨ d ∈ cs := by
  unfold offering at h
  split at h
  · exact List.mem_append.mp h
  · exact .inl h

/-! ### Taking in a candidate -/

theorem newest?_takeIn_fresh (h : s.graph.newest? c.state = none) (hroom : s.graph.size < limits.states) (state : State) :
    (takeIn limits goal ps v s c).graph.newest? state =
      if state = c.state then some s.graph.size else s.graph.newest? state := by
  rw [← Graph.newest?_addVertex]
  refine Graph.newest?_congr (fun u => ?_) state
  rw [value?_takeIn_fresh h hroom, Graph.value?_addVertex]

theorem successors_takeIn_fresh (h : s.graph.newest? c.state = none) (hroom : s.graph.size < limits.states)
    (hv : v < s.graph.size) (hgoal : goalId < s.graph.size) (u : Nat) :
    (takeIn limits goal ps v s c).graph.successors u =
      if u = v then s.graph.successors u ++ [⟨s.graph.size, c.utility, c.action⟩]
      else if u = s.graph.size then if c.state.isBetter goal ps then [arrival] else []
      else s.graph.successors u := by
  have hv' : v < (s.graph.addVertex c.state).size := by
    rw [Graph.size_addVertex]
    exact Nat.lt_succ_of_lt hv
  have hfresh : s.graph.size < (s.graph.addVertex c.state).size := by
    rw [Graph.size_addVertex]
    exact Nat.lt_succ_self _
  have hdiscovered := Graph.successors_addEdge (c := c.utility) (a := c.action) hv' hfresh
  have hnil : s.graph.successors s.graph.size = [] := Graph.successors_eq_nil (Nat.le_refl _)
  rw [takeIn_fresh h hroom]
  by_cases hbetter : c.state.isBetter goal ps
  · simp only [hbetter, if_true]
    rw [Graph.successors_addEdge (by rw [discovered, Graph.size_addEdge]; exact hfresh)
      (by rw [discovered, Graph.size_addEdge]; exact Nat.lt_trans hgoal hfresh), discovered, hdiscovered,
      Graph.successors_addVertex]
    by_cases huv : u = v
    · simp [huv, Nat.ne_of_lt hv]
    · by_cases hu : u = s.graph.size
      · simp [hu, Ne.symm (Nat.ne_of_lt hv), hnil, arrival]
      · simp [huv, hu]
  · simp only [hbetter, Bool.false_eq_true, if_false]
    rw [discovered, hdiscovered, Graph.successors_addVertex]
    by_cases huv : u = v
    · simp [huv]
    · by_cases hu : u = s.graph.size
      · simp [hu, Ne.symm (Nat.ne_of_lt hv), hnil]
      · simp [huv, hu]

namespace Accounted
variable (h : Accounted limits goal ps s.graph offered)
include h

theorem take_known (hv : v < s.graph.size) (hknown : s.graph.newest? c.state = some t) :
    Accounted limits goal ps (takeIn limits goal ps v s c).graph (offering offered v [c]) := by
  rw [takeIn_known hknown]
  have ht := Graph.lt_size_of_value? (Graph.value?_of_newest? hknown)
  refine ⟨fun u => ?_, fun u hu => ?_, fun hroom u d hd => ?_⟩
  · have hcarrying : carrying? (s.graph.addEdge v t c.utility c.action) = carrying? s.graph :=
      funext fun d => carrying?_congr (Graph.newest?_addEdge ..)
    rw [Graph.successors_addEdge hv ht, h.edges, entry_congr (Graph.value?_addEdge ..), hcarrying, offering]
    split
    · rw [List.filterMap_append, List.append_assoc, List.filterMap_cons_some (carrying?_of_newest? hknown),
        List.filterMap_nil]
    · rfl
  · rw [Graph.size_addEdge] at hu
    rw [offering, if_neg (Nat.ne_of_gt (Nat.lt_of_lt_of_le hv hu)), h.vertices u hu]
  · rw [Graph.size_addEdge] at hroom
    rw [Graph.newest?_addEdge]
    rcases mem_offering hd with hd | hd
    · exact h.known hroom u d hd
    · obtain rfl := List.mem_singleton.mp hd
      rw [hknown]
      exact Option.some_ne_none t

theorem take_full (hv : v < s.graph.size) (hnew : s.graph.newest? c.state = none) (hfull : limits.states ≤ s.graph.size) :
    Accounted limits goal ps (takeIn limits goal ps v s c).graph (offering offered v [c]) := by
  rw [takeIn_full hnew hfull]
  refine ⟨fun u => ?_, fun u hu => ?_, fun hroom => absurd hroom (Nat.not_lt.mpr hfull)⟩
  · rw [h.edges, offering]
    split
    · rw [List.filterMap_append, List.filterMap_cons_none (carrying?_eq_none hnew), List.filterMap_nil, List.append_nil]
    · rfl
  · rw [offering, if_neg (Nat.ne_of_gt (Nat.lt_of_lt_of_le hv hu)), h.vertices u hu]

/-- A new vertex changes no edge of a candidate that was offered before: the state of each is known already. -/
theorem take_fresh (hv : v < s.graph.size) (hgoal : goalId < s.graph.size) (hnew : s.graph.newest? c.state = none)
    (hroom : s.graph.size < limits.states) :
    Accounted limits goal ps (takeIn limits goal ps v s c).graph (offering offered v [c]) := by
  have hnewest : ∀ state, (takeIn limits goal ps v s c).graph.newest? state =
      if state = c.state then some s.graph.size else s.graph.newest? state := newest?_takeIn_fresh hnew hroom
  have hstate : ∀ u, ∀ d ∈ offered u, d.state ≠ c.state := by
    intro u d hd heq
    exact h.known hroom u d hd (heq ▸ hnew)
  have hcarrying : ∀ u, (offered u).filterMap (carrying? (takeIn limits goal ps v s c).graph) =
      (offered u).filterMap (carrying? s.graph) := by
    intro u
    refine List.filterMap_congr fun d hd => carrying?_congr ?_
    rw [hnewest, if_neg (hstate u d hd)]
  have hvalue : ∀ u, (takeIn limits goal ps v s c).graph.value? u =
      if u = s.graph.size then some c.state else s.graph.value? u := fun _ => value?_takeIn_fresh hnew hroom
  refine ⟨fun u => ?_, fun u hu => ?_, fun _ u d hd => ?_⟩
  · rw [successors_takeIn_fresh hnew hroom hv hgoal, offering]
    by_cases huv : u = v
    · have hentry : entry goal ps (takeIn limits goal ps v s c).graph u = entry goal ps s.graph u :=
        entry_congr (by rw [hvalue, if_neg (huv ▸ Nat.ne_of_lt hv)])
      have hself : carrying? (takeIn limits goal ps v s c).graph c = some ⟨s.graph.size, c.utility, c.action⟩ :=
        carrying?_of_newest? (by rw [hnewest, if_pos rfl])
      rw [if_pos huv, if_pos huv, hentry, List.filterMap_append, hcarrying, h.edges, List.filterMap_cons_some hself,
        List.filterMap_nil, List.append_assoc]
    · rw [if_neg huv, if_neg huv, hcarrying]
      split
      · rename_i hu
        rw [h.vertices u (Nat.le_of_eq hu.symm), List.filterMap_nil, List.append_nil, entry, hvalue, if_pos hu]
        simp [hu, hgoal]
      · rename_i hu
        rw [h.edges, entry_congr (by rw [hvalue, if_neg hu])]
  · have hsize : s.graph.size ≤ u := by
      refine Nat.le_of_not_lt fun hlt => ?_
      obtain ⟨state, hstate⟩ := Graph.exists_value? hlt
      exact absurd (Graph.lt_size_of_value? (value?_takeIn hstate)) (Nat.not_lt.mpr hu)
    rw [offering, if_neg (Nat.ne_of_gt (Nat.lt_of_lt_of_le hv hsize)), h.vertices u hsize]
  · rw [hnewest]
    split
    · exact Option.some_ne_none _
    · rename_i hne
      rcases mem_offering hd with hd | hd
      · exact h.known hroom u d hd
      · obtain rfl := List.mem_singleton.mp hd
        exact absurd rfl hne

theorem take (hv : v < s.graph.size) (hgoal : goalId < s.graph.size) (c : Candidate) :
    Accounted limits goal ps (takeIn limits goal ps v s c).graph (offering offered v [c]) := by
  cases hnewest : s.graph.newest? c.state with
  | some t => exact h.take_known hv hnewest
  | none =>
    by_cases hfull : limits.states ≤ s.graph.size
    · exact h.take_full hv hnewest hfull
    · exact h.take_fresh hv hgoal hnewest (Nat.not_le.mp hfull)

end Accounted

theorem Accounted.foldl_takeIn (h : Accounted limits goal ps s.graph offered) (hv : v < s.graph.size)
    (hgoal : goalId < s.graph.size) (cs : List Candidate) :
    Accounted limits goal ps (cs.foldl (takeIn limits goal ps v) s).graph (offering offered v cs) := by
  induction cs generalizing s offered with
  | nil => rwa [offering_nil]
  | cons c cs ih =>
    have hkept : ∀ {u}, u < s.graph.size → u < (takeIn limits goal ps v s c).graph.size := by
      intro u hu
      obtain ⟨state, hstate⟩ := Graph.exists_value? hu
      exact Graph.lt_size_of_value? (value?_takeIn hstate)
    rw [offering_cons]
    exact ih (h.take hv hgoal c) (hkept hv) (hkept hgoal)

end

/-! ### Explored graphs -/

section
variable {σ : Type} {limits : PlannerLimits} {actuators : List (Actuator σ)} {start goal : State} {ps : Profiles}
  {s : Synthesis} {q : Asked} {u : Nat}

theorem proposals_answered :
    (s.answered limits goal ps q).proposals limits = offering (s.proposals limits) q.vertex (q.looked limits) := by
  funext u
  unfold proposals offering
  rw [asked_answered, Array.toList_push, List.filter_append, List.flatMap_append]
  split
  · rename_i hu
    simp [hu]
  · rename_i hu
    simp [Ne.symm hu]

theorem mem_proposals : c ∈ s.proposals limits u ↔ ∃ q ∈ s.asked, q.vertex = u ∧ c ∈ q.looked limits := by
  simp [proposals, and_assoc]

/-- The graph after any growth, with the candidates that were looked at. -/
theorem Grown.accounted (h : Grown limits actuators start goal ps s) :
    Accounted limits goal ps s.graph (s.proposals limits) := by
  induction h with
  | initial =>
    have hnone : ∀ u, (Synthesis.initial start goal).proposals limits u = [] := fun _ => rfl
    refine ⟨fun u => ?_, fun u _ => hnone u, fun _ u c hc => ?_⟩
    · have hentry : entry goal ps (Synthesis.initial start goal).graph u = [] := by
        refine List.eq_nil_iff_forall_not_mem.mpr fun e he => ?_
        obtain ⟨hbetter, -⟩ := mem_entry.mp he
        have hs : Charted limits actuators start goal ps (.initial start goal) := charted_initial
        have harrives := hs.arrives u hbetter
        simp [Synthesis.initial] at harrives
      rw [hentry, hnone]
      simp [Synthesis.initial]
    · rw [hnone] at hc
      exact absurd hc List.not_mem_nil
  | @answer s q hs _ _ state _ ih =>
    rw [proposals_answered]
    exact Accounted.foldl_takeIn (s := { s with asked := s.asked.push q }) ih (Graph.lt_size_of_value? state) hs.goal_lt _

/-- The edges of a vertex: the one into the goal if it is better, and then one for every candidate that was looked at
    and whose state stands in the graph, in the order of the questions. -/
theorem Grown.successors_eq (h : Grown limits actuators start goal ps s) (u : Nat) :
    s.graph.successors u = entry goal ps s.graph u ++ (s.proposals limits u).filterMap (carrying? s.graph) :=
  h.accounted.edges u

end
end Intendant.Synthesis
