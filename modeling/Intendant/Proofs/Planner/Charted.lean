import Intendant.Planner.Plan
import Intendant.Proofs.Planner.Exploration

/-! # Explored graphs

What holds of a graph after any growth (`Charted`): where its edges come from, that every vertex but the goal is
reached from the start, that states behind the goal stand in one vertex each, and that the flag is set exactly if
one of them is better than the goal. -/

namespace Intendant.Synthesis

/-- The edge carries a candidate that was looked at when an actuator was asked about the vertex, and leads to a
    vertex with the proposed state. -/
def Proposed (limits : PlannerLimits) (s : Synthesis) (u : Nat) (e : Edge Float) : Prop :=
  ∃ q ∈ s.asked, ∃ c ∈ q.looked limits, q.vertex = u ∧ s.graph.value? e.target = some c.state ∧
    e.utility = c.utility ∧ e.action = c.action

/-- The vertex is not one of the ends and its state is better than the goal. -/
def Better (goal : State) (ps : Profiles) (s : Synthesis) (u : Nat) : Prop :=
  goalId < u ∧ ∃ state, s.graph.value? u = some state ∧ state.isBetter goal ps = true

/-- The edge that a vertex better than the goal has into it. -/
def arrival : Edge Float := ⟨goalId, 0.0, { name := Action.done }⟩

/-- The graph after any growth. -/
structure Charted {σ : Type} (limits : PlannerLimits) (actuators : List (Actuator σ)) (start goal : State) (ps : Profiles)
    (s : Synthesis) : Prop where
  start_value : s.graph.value? startId = some start
  goal_value : s.graph.value? goalId = some goal
  asked : ∀ q ∈ s.asked, Honest actuators goal ps q ∧ q.vertex ≠ goalId ∧ s.graph.value? q.vertex = some q.state
  edge : ∀ u, ∀ e ∈ s.graph.successors u, Proposed limits s u e ∨ Better goal ps s u ∧ e = arrival
  reached : ∀ u, u < s.graph.size → u ≠ goalId → s.graph.Reaches startId u
  distinct : ∀ u v state, goalId < u → v < u → s.graph.value? u = some state → s.graph.value? v ≠ some state
  hasGoal : s.hasGoal = true ↔ ∃ u, Better goal ps s u
  arrives : ∀ u, Better goal ps s u → arrival ∈ s.graph.successors u

section
variable {σ : Type} {limits : PlannerLimits} {actuators : List (Actuator σ)} {start goal : State} {ps : Profiles}
  {s : Synthesis} {q : Asked} {c : Candidate} {u v : Nat} {e : Edge Float}

theorem Proposed.taken (h : Proposed limits s u e) (d : Candidate) :
    Proposed limits (takeIn limits goal ps v s d) u e := by
  obtain ⟨q, hq, c, hc, hu, hvalue, hutility, haction⟩ := h
  exact ⟨q, by rwa [asked_takeIn], c, hc, hu, value?_takeIn hvalue, hutility, haction⟩

theorem Better.taken (h : Better goal ps s u) (d : Candidate) : Better goal ps (takeIn limits goal ps v s d) u := by
  obtain ⟨hu, state, hvalue, hbetter⟩ := h
  exact ⟨hu, state, value?_takeIn hvalue, hbetter⟩

theorem charted_initial : Charted limits actuators start goal ps (.initial start goal) where
  start_value := rfl
  goal_value := rfl
  asked _ hq := by simp [Synthesis.initial] at hq
  edge u e he := by simp [Synthesis.initial] at he
  reached u hu hne := by
    have hstart : u = startId := by
      simp only [Synthesis.initial, Graph.size_addVertex, Graph.size_empty, goalId] at hu hne
      unfold startId
      omega
    exact hstart ▸ .refl _
  distinct u v state hu hvu hvalue := by
    have hsize := Graph.lt_size_of_value? hvalue
    simp only [Synthesis.initial, Graph.size_addVertex, Graph.size_empty, goalId] at hsize hu
    omega
  hasGoal := by
    refine iff_of_false Bool.false_ne_true ?_
    rintro ⟨u, hu, state, hvalue, -⟩
    have hsize := Graph.lt_size_of_value? hvalue
    simp only [Synthesis.initial, Graph.size_addVertex, Graph.size_empty, goalId] at hsize hu
    omega
  arrives u h := by
    obtain ⟨hu, state, hvalue, -⟩ := h
    have hsize := Graph.lt_size_of_value? hvalue
    simp only [Synthesis.initial, Graph.size_addVertex, Graph.size_empty, goalId] at hsize hu
    omega

theorem Charted.ask (h : Charted limits actuators start goal ps s) (honest : Honest actuators goal ps q)
    (vertex : q.vertex ≠ goalId) (state : s.graph.value? q.vertex = some q.state) :
    Charted limits actuators start goal ps { s with asked := s.asked.push q } where
  start_value := h.start_value
  goal_value := h.goal_value
  reached := h.reached
  distinct := h.distinct
  hasGoal := h.hasGoal
  arrives := h.arrives
  asked r hr := by
    rcases Array.mem_push.mp hr with hr | rfl
    · exact h.asked r hr
    · exact ⟨honest, vertex, state⟩
  edge u e he := by
    refine (h.edge u e he).imp_left ?_
    rintro ⟨r, hr, hc⟩
    exact ⟨r, Array.mem_push_of_mem q hr, hc⟩

namespace Charted
variable (h : Charted limits actuators start goal ps s)
include h

theorem asked_taken (c : Candidate) : ∀ r ∈ (takeIn limits goal ps v s c).asked,
    Honest actuators goal ps r ∧ r.vertex ≠ goalId ∧
      (takeIn limits goal ps v s c).graph.value? r.vertex = some r.state := by
  intro r hr
  rw [asked_takeIn] at hr
  obtain ⟨honest, vertex, state⟩ := h.asked r hr
  exact ⟨honest, vertex, value?_takeIn state⟩

theorem edge_taken (c : Candidate) (he : e ∈ s.graph.successors u) :
    Proposed limits (takeIn limits goal ps v s c) u e ∨
      Better goal ps (takeIn limits goal ps v s c) u ∧ e = arrival :=
  (h.edge u e he).imp (·.taken c) fun ⟨hbetter, heq⟩ => ⟨hbetter.taken c, heq⟩

theorem reached_taken (c : Candidate) (hu : u < s.graph.size) (hne : u ≠ goalId) :
    (takeIn limits goal ps v s c).graph.Reaches startId u :=
  (h.reached u hu hne).mono fun _ _ he => mem_successors_takeIn he

/-- A candidate with a known state adds an edge and no vertex. -/
theorem taken_known (hq : q ∈ s.asked) (hc : c ∈ q.looked limits) {t : Nat} (hknown : s.graph.newest? c.state = some t) :
    Charted limits actuators start goal ps (takeIn limits goal ps q.vertex s c) := by
  have heq : takeIn limits goal ps q.vertex s c = _ := takeIn_known hknown
  have hvalue : ∀ u, (takeIn limits goal ps q.vertex s c).graph.value? u = s.graph.value? u := by
    intro u
    rw [heq, Graph.value?_addEdge]
  have hbetter : ∀ u, Better goal ps (takeIn limits goal ps q.vertex s c) u ↔ Better goal ps s u := by
    intro u
    rw [Better, Better, hvalue]
  refine ⟨value?_takeIn h.start_value, value?_takeIn h.goal_value, h.asked_taken c, fun u e he => ?_,
    fun u hu hne => ?_, fun u v state hu hvu => ?_, ?_, fun u hu => ?_⟩
  · have he' : e ∈ (s.graph.addEdge q.vertex t c.utility c.action).successors u := by rwa [heq] at he
    rcases Graph.mem_successors_addEdge.mp he' with he' | ⟨-, -, rfl, rfl⟩
    · exact h.edge_taken c he'
    · exact .inl ⟨q, by rwa [asked_takeIn], c, hc, rfl, value?_takeIn (Graph.value?_of_newest? hknown), rfl, rfl⟩
  · rw [heq, Graph.size_addEdge] at hu
    exact h.reached_taken c hu hne
  · rw [hvalue, hvalue]
    exact h.distinct u v state hu hvu
  · simp only [hbetter, ← h.hasGoal]
    rw [heq]
  · exact mem_successors_takeIn (h.arrives u ((hbetter u).mp hu))

/-- A candidate with a new state adds a vertex that is reached over the vertex asked about. -/
theorem taken_fresh (hq : q ∈ s.asked) (hc : c ∈ q.looked limits) (hnew : s.graph.newest? c.state = none)
    (hroom : s.graph.size < limits.states) :
    Charted limits actuators start goal ps (takeIn limits goal ps q.vertex s c) := by
  obtain ⟨-, hq_ne, hq_value⟩ := h.asked q hq
  have hq_lt := Graph.lt_size_of_value? hq_value
  have hgoal_lt := Graph.lt_size_of_value? h.goal_value
  have hvalue : ∀ u, (takeIn limits goal ps q.vertex s c).graph.value? u =
      if u = s.graph.size then some c.state else s.graph.value? u := fun _ => value?_takeIn_fresh hnew hroom
  have hmem : ∀ u e, e ∈ (takeIn limits goal ps q.vertex s c).graph.successors u ↔
      e ∈ s.graph.successors u ∨ u = q.vertex ∧ e = ⟨s.graph.size, c.utility, c.action⟩ ∨
        c.state.isBetter goal ps = true ∧ u = s.graph.size ∧ e = arrival :=
    fun _ _ => mem_successors_takeIn_fresh hnew hroom hq_lt hgoal_lt
  have hbetter : ∀ u, Better goal ps (takeIn limits goal ps q.vertex s c) u ↔
      Better goal ps s u ∨ c.state.isBetter goal ps = true ∧ u = s.graph.size := by
    intro u
    by_cases hu : u = s.graph.size
    · have hnone : s.graph.value? s.graph.size = none := by simp [← Option.not_isSome_iff_eq_none, Graph.value?_isSome]
      simp [Better, hvalue, hu, hgoal_lt, hnone]
    · simp [Better, hvalue, hu]
  refine ⟨value?_takeIn h.start_value, value?_takeIn h.goal_value, h.asked_taken c, fun u e he => ?_,
    fun u hu hne => ?_, fun u v state hu hvu hstate => ?_, ?_, fun u hu => ?_⟩
  · rcases (hmem u e).mp he with he | ⟨rfl, rfl⟩ | ⟨hb, rfl, rfl⟩
    · exact h.edge_taken c he
    · exact .inl ⟨q, by rwa [asked_takeIn], c, hc, rfl, by rw [hvalue, if_pos rfl], rfl, rfl⟩
    · exact .inr ⟨(hbetter _).mpr (.inr ⟨hb, rfl⟩), rfl⟩
  · by_cases hfresh : u = s.graph.size
    · subst hfresh
      exact (h.reached_taken c hq_lt hq_ne).step ((hmem q.vertex _).mpr (.inr (.inl ⟨rfl, rfl⟩)))
    · obtain ⟨state, hstate⟩ := Graph.exists_value? hu
      rw [hvalue, if_neg hfresh] at hstate
      exact h.reached_taken c (Graph.lt_size_of_value? hstate) hne
  -- A state that no vertex had stands in the new vertex only.
  · rw [hvalue] at hstate ⊢
    split at hstate
    · subst u
      cases hstate
      rw [if_neg (Nat.ne_of_lt hvu)]
      exact Graph.value?_of_newest?_eq_none hnew v
    · rw [if_neg (Nat.ne_of_lt (Nat.lt_trans hvu (Graph.lt_size_of_value? hstate)))]
      exact h.distinct u v state hu hvu hstate
  · rw [hasGoal_takeIn_fresh hnew hroom, Bool.or_eq_true, h.hasGoal]
    simp only [hbetter, exists_or, exists_and_left, exists_eq, and_true]
    exact or_comm
  · rcases (hbetter u).mp hu with hu | ⟨hb, rfl⟩
    · exact mem_successors_takeIn (h.arrives u hu)
    · exact (hmem _ _).mpr (.inr (.inr ⟨hb, rfl, rfl⟩))

theorem taken (hq : q ∈ s.asked) (hc : c ∈ q.looked limits) :
    Charted limits actuators start goal ps (takeIn limits goal ps q.vertex s c) := by
  rcases takeIn_cases limits goal ps q.vertex s c with ⟨t, hknown, -⟩ | heq | ⟨hnew, hroom⟩
  · exact h.taken_known hq hc hknown
  · rwa [heq]
  · exact h.taken_fresh hq hc hnew hroom

/-- The goal is never asked about and is not behind itself, so it has no edges. -/
theorem successors_goal : s.graph.successors goalId = [] := by
  refine List.eq_nil_iff_forall_not_mem.mpr fun e he => ?_
  rcases h.edge goalId e he with ⟨q, hq, c, hc, hvertex, -⟩ | ⟨⟨hlt, -⟩, -⟩
  · exact (h.asked q hq).2.1 hvertex
  · exact Nat.lt_irrefl _ hlt

theorem target_lt (he : e ∈ s.graph.successors u) :
    e.target < s.graph.size := by
  rcases h.edge u e he with ⟨q, -, c, -, -, hvalue, -⟩ | ⟨-, rfl⟩
  · exact Graph.lt_size_of_value? hvalue
  · exact Graph.lt_size_of_value? h.goal_value

/-- The goal is the newest vertex with its state. -/
theorem newest?_goal : s.graph.newest? goal = some goalId := by
  cases hnewest : s.graph.newest? goal with
  | none => exact absurd h.goal_value (Graph.value?_of_newest?_eq_none hnewest goalId)
  | some t =>
    have hvalue := Graph.value?_of_newest? hnewest
    rcases Nat.lt_trichotomy t goalId with hlt | rfl | hgt
    · exact absurd h.goal_value (Graph.newest?_max hnewest hlt)
    · rfl
    · exact absurd h.goal_value (h.distinct t goalId goal hgt hgt hvalue)

end Charted

/-- Whatever grows from a start and a goal is charted. -/
theorem Grown.charted (h : Grown limits actuators start goal ps s) : Charted limits actuators start goal ps s :=
  h.induction charted_initial (fun _ _ hs honest vertex state => hs.ask honest vertex state)
    fun _ _ _ hs hq hc => hs.taken hq hc

end
end Intendant.Synthesis
