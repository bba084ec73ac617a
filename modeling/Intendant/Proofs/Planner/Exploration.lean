import Intendant.Planner.Synthesis
import Intendant.Proofs.Graph.Walk

/-! # The growth of a synthesis

Exploring asks one question after the other and takes in the candidates of every answer. `Grown` is this growth
without the order of the questions. Whatever the start has and every answer preserves holds after any growth
(`Grown.induction`). -/

namespace Intendant

/-- The candidates of an answer that are looked at. -/
def Asked.looked (limits : PlannerLimits) (q : Asked) : List Candidate :=
  match q.answer with
  | .ok candidates => candidates.take limits.candidates
  | .error _ => []

namespace Synthesis

theorem start_ne_goal : startId ≠ goalId := by decide

/-! ### Taking in a candidate -/

section
variable {limits : PlannerLimits} {goal : State} {ps : Profiles} {s : Synthesis} {c : Candidate} {u v t : Nat}
  {e : Edge Float} {state : State}

theorem takeIn_known (h : s.graph.newest? c.state = some t) :
    takeIn limits goal ps v s c = { s with graph := s.graph.addEdge v t c.utility c.action } := by
  unfold takeIn
  rw [h]

theorem takeIn_full (h : s.graph.newest? c.state = none) (hfull : limits.states ≤ s.graph.size) :
    takeIn limits goal ps v s c = s := by
  unfold takeIn
  rw [h]
  exact if_pos hfull

/-- The graph with a new vertex that an edge leads to. -/
def discovered (s : Synthesis) (v : Nat) (c : Candidate) : Graph State Float :=
  (s.graph.addVertex c.state).addEdge v s.graph.size c.utility c.action

theorem takeIn_fresh (h : s.graph.newest? c.state = none) (hroom : s.graph.size < limits.states) :
    takeIn limits goal ps v s c =
      if c.state.isBetter goal ps then
        { s with graph := (s.discovered v c).addEdge s.graph.size goalId 0.0 { name := Action.done }, hasGoal := true }
      else { s with graph := s.discovered v c } := by
  unfold takeIn
  rw [h]
  exact if_neg (Nat.not_le.mpr hroom)

/-- A candidate is known, is dropped for want of room, or becomes a new vertex. -/
theorem takeIn_cases (limits : PlannerLimits) (goal : State) (ps : Profiles) (v : Nat) (s : Synthesis) (c : Candidate) :
    (∃ t, s.graph.newest? c.state = some t ∧
      takeIn limits goal ps v s c = { s with graph := s.graph.addEdge v t c.utility c.action }) ∨
    takeIn limits goal ps v s c = s ∨
    s.graph.newest? c.state = none ∧ s.graph.size < limits.states := by
  cases h : s.graph.newest? c.state with
  | some t => exact .inl ⟨t, rfl, takeIn_known h⟩
  | none =>
    by_cases hfull : limits.states ≤ s.graph.size
    · exact .inr (.inl (takeIn_full h hfull))
    · exact .inr (.inr ⟨rfl, Nat.not_le.mp hfull⟩)

@[simp] theorem asked_takeIn : (takeIn limits goal ps v s c).asked = s.asked := by
  rcases takeIn_cases limits goal ps v s c with ⟨t, -, heq⟩ | heq | ⟨hnew, hroom⟩
  · rw [heq]
  · rw [heq]
  · rw [takeIn_fresh hnew hroom]
    split <;> rfl

@[simp] theorem overflowed_takeIn : (takeIn limits goal ps v s c).overflowed = s.overflowed := by
  rcases takeIn_cases limits goal ps v s c with ⟨t, -, heq⟩ | heq | ⟨hnew, hroom⟩
  · rw [heq]
  · rw [heq]
  · rw [takeIn_fresh hnew hroom]
    split <;> rfl

theorem value?_takeIn_fresh (h : s.graph.newest? c.state = none) (hroom : s.graph.size < limits.states) :
    (takeIn limits goal ps v s c).graph.value? u = if u = s.graph.size then some c.state else s.graph.value? u := by
  rw [takeIn_fresh h hroom]
  split <;> simp only [discovered, Graph.value?_addEdge, Graph.value?_addVertex]

theorem value?_takeIn (h : s.graph.value? u = some state) :
    (takeIn limits goal ps v s c).graph.value? u = some state := by
  rcases takeIn_cases limits goal ps v s c with ⟨t, -, heq⟩ | heq | ⟨hnew, hroom⟩
  · rw [heq, Graph.value?_addEdge, h]
  · rw [heq, h]
  · rw [value?_takeIn_fresh hnew hroom, if_neg (Nat.ne_of_lt (Graph.lt_size_of_value? h)), h]

theorem size_takeIn_le : (takeIn limits goal ps v s c).graph.size ≤ max s.graph.size limits.states := by
  rcases takeIn_cases limits goal ps v s c with ⟨t, -, heq⟩ | heq | ⟨hnew, hroom⟩
  · rw [heq, Graph.size_addEdge]
    exact Nat.le_max_left ..
  · rw [heq]
    exact Nat.le_max_left ..
  · refine Nat.le_trans ?_ (Nat.le_max_right ..)
    have hsize : (s.discovered v c).size = s.graph.size + 1 := by
      rw [discovered, Graph.size_addEdge, Graph.size_addVertex]
    rw [takeIn_fresh hnew hroom]
    split
    · rw [Graph.size_addEdge, hsize]
      exact hroom
    · exact hsize ▸ hroom

theorem hasGoal_takeIn_fresh (h : s.graph.newest? c.state = none) (hroom : s.graph.size < limits.states) :
    (takeIn limits goal ps v s c).hasGoal = (c.state.isBetter goal ps || s.hasGoal) := by
  rw [takeIn_fresh h hroom]
  split
  · rename_i hbetter
    simp [hbetter]
  · rename_i hworse
    simp [hworse]

theorem mem_successors_takeIn_fresh (h : s.graph.newest? c.state = none) (hroom : s.graph.size < limits.states)
    (hv : v < s.graph.size) (hgoal : goalId < s.graph.size) :
    e ∈ (takeIn limits goal ps v s c).graph.successors u ↔
      e ∈ s.graph.successors u ∨ u = v ∧ e = ⟨s.graph.size, c.utility, c.action⟩ ∨
        c.state.isBetter goal ps = true ∧ u = s.graph.size ∧ e = ⟨goalId, 0.0, { name := Action.done }⟩ := by
  have hv' : v < s.graph.size + 1 := Nat.lt_succ_of_lt hv
  have hgoal' : goalId < s.graph.size + 1 := Nat.lt_succ_of_lt hgoal
  rw [takeIn_fresh h hroom]
  split
  · rename_i hbetter
    simp [discovered, Graph.mem_successors_addEdge, hbetter, hv', hgoal', or_assoc]
  · rename_i hworse
    simp [discovered, Graph.mem_successors_addEdge, hworse, hv']

theorem mem_successors_takeIn (h : e ∈ s.graph.successors u) :
    e ∈ (takeIn limits goal ps v s c).graph.successors u := by
  rcases takeIn_cases limits goal ps v s c with ⟨t, -, heq⟩ | heq | ⟨hnew, hroom⟩
  · rw [heq]
    exact Graph.mem_successors_addEdge.mpr (.inl h)
  · rwa [heq]
  · rw [takeIn_fresh hnew hroom]
    split <;> simp [discovered, Graph.mem_successors_addEdge, h]

end

/-! ### Growth -/

section
variable {σ : Type} (limits : PlannerLimits) (actuators : List (Actuator σ)) (start goal : State) (ps : Profiles)

/-- The synthesis after a question is answered and the candidates that are looked at are taken in. -/
def answered (s : Synthesis) (q : Asked) : Synthesis :=
  (q.looked limits).foldl (takeIn limits goal ps q.vertex) { s with asked := s.asked.push q }

/-- The answer to a question is what the actuator with its number says about the state, with some memory. -/
def Honest (q : Asked) : Prop :=
  ∃ a w, actuators[q.actuator]? = some a ∧ (a.nextState q.state goal ps w).1 = q.answer

/-- What questions about vertices other than the goal can lead to. -/
inductive Grown : Synthesis → Prop
  | initial : Grown (.initial start goal)
  | answer {s : Synthesis} {q : Asked} (h : Grown s) (honest : Honest actuators goal ps q) (vertex : q.vertex ≠ goalId)
      (state : s.graph.value? q.vertex = some q.state) (room : s.graph.size < limits.states) :
      Grown (s.answered limits goal ps q)

end

section
variable {σ : Type} {limits : PlannerLimits} {actuators : List (Actuator σ)} {start goal : State} {ps : Profiles}
  {s : Synthesis} {w : σ}

/-- What the start has, and noting a question and taking in one of its candidates preserve, holds after any
    growth. -/
theorem Grown.induction {P : Synthesis → Prop} (hinitial : P (.initial start goal))
    (hask : ∀ s q, P s → Honest actuators goal ps q → q.vertex ≠ goalId → s.graph.value? q.vertex = some q.state →
      P { s with asked := s.asked.push q })
    (htake : ∀ s q c, P s → q ∈ s.asked → c ∈ q.looked limits → P (takeIn limits goal ps q.vertex s c))
    (h : Grown limits actuators start goal ps s) : P s := by
  induction h with
  | initial => exact hinitial
  | @answer s q _ honest vertex state _ ih =>
    refine (List.foldlRecOn (motive := fun t => P t ∧ q ∈ t.asked) (q.looked limits) _
      ⟨hask s q ih honest vertex state, Array.mem_push_self⟩ ?_).1
    rintro t ⟨ht, hq⟩ c hc
    exact ⟨htake t q c ht hq hc, by rwa [asked_takeIn]⟩

@[simp] theorem asked_answered {q : Asked} : (s.answered limits goal ps q).asked = s.asked.push q :=
  List.foldlRecOn (motive := fun t : Synthesis => t.asked = s.asked.push q) (q.looked limits)
    (takeIn limits goal ps q.vertex) rfl fun _ ht _ _ => asked_takeIn.trans ht

theorem value?_answered {q : Asked} {u : Nat} {state : State} (h : s.graph.value? u = some state) :
    (s.answered limits goal ps q).graph.value? u = some state :=
  List.foldlRecOn (motive := fun t : Synthesis => t.graph.value? u = some state) (q.looked limits)
    (takeIn limits goal ps q.vertex) h fun _ ht _ _ => value?_takeIn ht

theorem answered_error {q : Asked} {error : ActuatorError} (h : q.answer = .error error) :
    s.answered limits goal ps q = { s with asked := s.asked.push q } := by
  rw [answered, Asked.looked, h]
  rfl

theorem answered_ok {q : Asked} {candidates : List Candidate} (h : q.answer = .ok candidates) :
    s.answered limits goal ps q =
      (candidates.take limits.candidates).foldl (takeIn limits goal ps q.vertex) { s with asked := s.asked.push q } := by
  rw [answered, Asked.looked, h]

theorem size_le_answered (q : Asked) : s.graph.size ≤ (s.answered limits goal ps q).graph.size := by
  refine Nat.le_of_not_lt fun hlt => ?_
  obtain ⟨state, hstate⟩ := Graph.exists_value? hlt
  exact absurd (Graph.lt_size_of_value? (value?_answered hstate)) (Nat.lt_irrefl _)

theorem Grown.goal_lt (h : Grown limits actuators start goal ps s) : goalId < s.graph.size := by
  induction h with
  | initial => exact Nat.lt_succ_self 1
  | @answer s q _ _ _ _ _ ih => exact Nat.lt_of_lt_of_le ih (size_le_answered q)

/-- Exploring needs no footprint, so it is never given up. -/
theorem Grown.overflowed (h : Grown limits actuators start goal ps s) : s.overflowed = false :=
  h.induction (P := fun s => s.overflowed = false) rfl (fun _ _ hs _ _ _ => hs)
    fun _ _ _ hs _ _ => overflowed_takeIn.trans hs

theorem Grown.size_le (h : Grown limits actuators start goal ps s) : s.graph.size ≤ max 2 limits.states := by
  refine h.induction (P := fun s => s.graph.size ≤ max 2 limits.states) (Nat.le_max_left ..) (fun _ _ hs _ _ _ => hs) ?_
  intro s q c hs _ _
  exact Nat.le_trans size_takeIn_le (Nat.max_le.mpr ⟨hs, Nat.le_max_right ..⟩)

end

/-! ### Visits and rounds -/

section
variable {σ : Type} {limits : PlannerLimits} {goal : State} {ps : Profiles} {s : Synthesis} {v : Nat}

/-- A visit that begins with room left: one question, and the next one while there still is room. -/
theorem visit_cons {state : State} {index : Nat} {a : Actuator σ} {rest : List (Actuator σ)} {w w' : σ}
    {answer : Except ActuatorError (List Candidate)} (hroom : s.graph.size < limits.states)
    (h : a.nextState state goal ps w = (answer, w')) :
    visit limits goal ps v state index (a :: rest) s w =
      let s' := s.answered limits goal ps ⟨index, v, state, answer⟩
      if limits.states ≤ s'.graph.size then (s', w') else visit limits goal ps v state (index + 1) rest s' w' := by
  rw [visit, h]
  cases answer with
  | ok candidates =>
    rw [answered_ok rfl]
  | error e =>
    rw [answered_error rfl]
    exact (if_neg (Nat.not_le.mpr hroom)).symm

theorem explore_room {as : List (Actuator σ)} {w : σ} {state : State} (hroom : v < s.graph.size ∧ s.graph.size < limits.states)
    (hstate : s.graph.value? v = some state) :
    explore limits goal ps as v s w =
      let (s', w') := visit limits goal ps v state 0 as s w
      explore limits goal ps as (following v) s' w' := by
  rw [explore, dif_pos hroom, hstate]

theorem explore_full {as : List (Actuator σ)} {w : σ} (hfull : ¬(v < s.graph.size ∧ s.graph.size < limits.states)) :
    explore limits goal ps as v s w = (s, w) := by
  rw [explore, dif_neg hfull]

end

end Synthesis
end Intendant
