import Intendant.Proofs.Planner.Schedule
import Intendant.Proofs.Planner.Shortcut

/-! # The structure of built graphs

A built graph is the explored one, to which at most the middle of a shortcut is added (`Finishes`). So start and goal
stand first, the states behind them stand in one vertex each, every vertex but the goal is reached from the start, no
edge leaves the goal, and an edge named done leads from a state that was explored into the goal exactly if the state is
better than the goal, as long as no actuator uses that name. -/

namespace Intendant.Synthesis

/-- What finishing adds to an explored graph: nothing, or the middle of a shortcut with the two edges at it. -/
structure Finishes (start goal : State) (ps : Profiles) (s t : Synthesis) : Prop where
  size_le : s.graph.size ≤ t.graph.size
  asked : t.asked = s.asked
  value : ∀ u, u < s.graph.size → t.graph.value? u = s.graph.value? u
  successors : ∀ u, u < s.graph.size → ∃ es, t.graph.successors u = s.graph.successors u ++ es ∧
    (es = [] ∨ u = startId ∧ ∃ cost, es = [⟨s.graph.size, cost, { name := Action.done }⟩])
  middle : ∀ u, s.graph.size ≤ u → u < t.graph.size → u = s.graph.size ∧ start.isBetter goal ps = true ∧
    t.graph.value? u = some (intermediate start) ∧ t.graph.successors u = [arrival] ∧ t.graph.Reaches startId u

section
variable {σ : Type} {limits : PlannerLimits} {actuators : List (Actuator σ)} {start goal : State} {ps : Profiles}
  {s t : Synthesis} {u v : Nat} {state : State} {e : Edge Float}

theorem finishes_refl (start goal : State) (ps : Profiles) (s : Synthesis) : Finishes start goal ps s s where
  size_le := Nat.le_refl _
  asked := rfl
  value _ _ := rfl
  successors _ _ := ⟨[], (List.append_nil _).symm, .inl rfl⟩
  middle _ hle hlt := absurd hlt (Nat.not_lt.mpr hle)

theorem finishes_detoured (hbetter : start.isBetter goal ps = true) (hstart : startId < s.graph.size)
    (hgoal : goalId < s.graph.size) (cost : Float) : Finishes start goal ps s (s.detoured start cost) := by
  have hsuccessors := successors_detoured start cost hstart hgoal
  refine ⟨?_, rfl, fun u hu => ?_, fun u hu => ?_, fun u hle hlt => ?_⟩
  · rw [size_detoured]
    exact Nat.le_succ _
  · rw [value?_detoured, if_neg (Nat.ne_of_lt hu)]
  · rw [hsuccessors]
    by_cases hu_start : u = startId
    · exact ⟨_, if_pos hu_start, .inr ⟨hu_start, cost, rfl⟩⟩
    · refine ⟨[], ?_, .inl rfl⟩
      rw [if_neg hu_start, if_neg (Nat.ne_of_lt hu), List.append_nil]
  · rw [size_detoured] at hlt
    obtain rfl : u = s.graph.size := Nat.le_antisymm (Nat.le_of_lt_succ hlt) hle
    have hedge : ⟨s.graph.size, cost, { name := Action.done }⟩ ∈ (s.detoured start cost).graph.successors startId := by
      rw [hsuccessors, if_pos rfl]
      exact List.mem_append_right _ (List.mem_singleton_self _)
    refine ⟨rfl, hbetter, by rw [value?_detoured, if_pos rfl], ?_, (Graph.Reaches.refl startId).step hedge⟩
    rw [hsuccessors, if_neg (Nat.ne_of_gt hstart), if_pos rfl]

/-- Giving up adds nothing. -/
theorem finishes_givenUp (start goal : State) (ps : Profiles) (s : Synthesis) : Finishes start goal ps s s.givenUp where
  size_le := Nat.le_refl _
  asked := rfl
  value _ _ := rfl
  successors _ _ := ⟨[], (List.append_nil _).symm, .inl rfl⟩
  middle _ hle hlt := absurd hlt (Nat.not_lt.mpr hle)

/-- The built graph finishes the explored one. -/
theorem build_finishes (limits : PlannerLimits) (actuators : List (Actuator σ)) (start goal : State) (ps : Profiles)
    (w : σ) :
    Finishes start goal ps (explored limits actuators start goal ps w).1 (build limits actuators start goal ps w).1 := by
  have hbuild : (build limits actuators start goal ps w).1 =
      finished start goal ps (explored limits actuators start goal ps w).1 := rfl
  have hgrown : Grown limits actuators start goal ps (explored limits actuators start goal ps w).1 := explored_grown
  have hstart := Graph.lt_size_of_value? hgrown.charted.start_value
  have hgoal := Graph.lt_size_of_value? hgrown.charted.goal_value
  rw [hbuild]
  rcases finished_cases start goal ps hstart hgoal with heq | ⟨hbetter, -, ⟨cost, -, heq⟩ | heq⟩
  · rw [heq]
    exact finishes_refl ..
  · rw [heq]
    exact finishes_detoured hbetter hstart hgoal cost
  · rw [heq]
    exact finishes_givenUp ..

namespace Finishes
variable (h : Finishes start goal ps s t)
include h

theorem mem_successors (he : e ∈ s.graph.successors u) : e ∈ t.graph.successors u := by
  obtain ⟨es, heq, -⟩ := h.successors u (Graph.lt_size_of_mem_successors he)
  rw [heq]
  exact List.mem_append_left es he

/-- Only the start has another edge than before. -/
theorem successors_of_ne (hu : u < s.graph.size) (hne : u ≠ startId) : t.graph.successors u = s.graph.successors u := by
  obtain ⟨es, heq, rfl | ⟨hstart, -⟩⟩ := h.successors u hu
  · rw [heq, List.append_nil]
  · exact absurd hstart hne

end Finishes

namespace Charted
variable (h : Charted limits actuators start goal ps s)
include h

/-- Two vertices do not have one state, unless they are the start and the goal. -/
theorem value?_ne (hu : goalId < u) (hu_lt : u < s.graph.size) (huv : u ≠ v) : s.graph.value? u ≠ s.graph.value? v := by
  obtain ⟨state, hstate⟩ := Graph.exists_value? hu_lt
  intro heq
  have hv : s.graph.value? v = some state := heq ▸ hstate
  rcases Nat.lt_or_gt_of_ne huv with hlt | hgt
  · exact h.distinct v u state (Nat.lt_trans hu hlt) hlt hv hstate
  · exact h.distinct u v state hu hgt hstate hv

/-- Where no candidate has the name done, an edge of that name into the goal leaves only a vertex that is better. -/
theorem better_of_done (hnames : ∀ q ∈ s.asked, ∀ c ∈ q.looked limits, c.action.name ≠ Action.done)
    (he : e ∈ s.graph.successors u) (hname : e.action.name = Action.done) : Better goal ps s u := by
  rcases h.edge u e he with ⟨q, hq, c, hc, -, -, -, haction⟩ | ⟨hbetter, -⟩
  · exact absurd (haction ▸ hname) (hnames q hq c hc)
  · exact hbetter

end Charted

/-- Finishing leaves the goal without edges. -/
theorem Finishes.successors_goal (h : Finishes start goal ps s t) (hs : Charted limits actuators start goal ps s) :
    t.graph.successors goalId = [] := by
  rw [h.successors_of_ne (Graph.lt_size_of_value? hs.goal_value) start_ne_goal.symm, hs.successors_goal]

/-- The structure of every built graph. The first two vertices are the start and the goal. Behind the vertices of the
    exploration there is at most the middle of a shortcut. The states of the exploration stand in one vertex each, apart
    from a goal that equals the start; every vertex behind the goal is reached from the start, and the goal has no edges.
    A vertex of the exploration has the edge named done of utility zero into the goal if its state is better than the goal,
    and only then if no candidate that is looked at bears this name. -/
theorem build_structure (limits : PlannerLimits) (actuators : List (Actuator σ)) (start goal : State) (ps : Profiles)
    (w : σ) :
    let before := (explored limits actuators start goal ps w).1
    let s := (build limits actuators start goal ps w).1
    (s.graph.value? startId = some start ∧ s.graph.value? goalId = some goal) ∧
    (before.graph.size ≤ s.graph.size ∧
      ∀ u, before.graph.size ≤ u → u < s.graph.size →
        u = before.graph.size ∧ start.isBetter goal ps = true ∧ s.graph.value? u = some (intermediate start)) ∧
    (∀ u v, goalId < u → u < before.graph.size → v < before.graph.size → u ≠ v →
      s.graph.value? u ≠ s.graph.value? v) ∧
    (∀ u, goalId < u → u < s.graph.size → s.graph.Reaches startId u) ∧
    s.graph.successors goalId = [] ∧
    ∀ u state, goalId < u → u < before.graph.size → s.graph.value? u = some state →
      (state.isBetter goal ps = true → ⟨goalId, 0.0, { name := Action.done }⟩ ∈ s.graph.successors u) ∧
      ((∀ q ∈ s.asked, ∀ c ∈ q.looked limits, c.action.name ≠ Action.done) →
        ∀ e ∈ s.graph.successors u, e.target = goalId → e.action.name = Action.done → state.isBetter goal ps = true) := by
  intro before s
  have hgrown : Grown limits actuators start goal ps before := explored_grown
  have hcharted := hgrown.charted
  have hstart := Graph.lt_size_of_value? hcharted.start_value
  have hgoal := Graph.lt_size_of_value? hcharted.goal_value
  have hs : Finishes start goal ps before s := build_finishes limits actuators start goal ps w
  refine ⟨⟨?_, ?_⟩, ⟨hs.size_le, fun u hle hlt => ?_⟩, fun u v hu hu_lt hv_lt huv => ?_, fun u hu hlt => ?_,
    hs.successors_goal hcharted, fun u state hu hlt hstate => ⟨fun hbetter => ?_, fun hnames e he _ hname => ?_⟩⟩
  · rw [hs.value startId hstart, hcharted.start_value]
  · rw [hs.value goalId hgoal, hcharted.goal_value]
  · obtain ⟨hu, hbetter, hmiddle, -⟩ := hs.middle u hle hlt
    exact ⟨hu, hbetter, hmiddle⟩
  · rw [hs.value u hu_lt, hs.value v hv_lt]
    exact hcharted.value?_ne hu hu_lt huv
  · by_cases hu_lt : u < before.graph.size
    · exact (hcharted.reached u hu_lt (Nat.ne_of_gt hu)).mono fun _ _ he => hs.mem_successors he
    · exact (hs.middle u (Nat.not_lt.mp hu_lt) hlt).2.2.2.2
  · rw [hs.value u hlt] at hstate
    exact hs.mem_successors (hcharted.arrives u ⟨hu, state, hstate, hbetter⟩)
  · rw [hs.value u hlt] at hstate
    rw [hs.asked] at hnames
    rw [hs.successors_of_ne hlt (Nat.ne_of_gt (Nat.zero_lt_of_lt hu))] at he
    obtain ⟨-, state', hstate', hbetter⟩ := hcharted.better_of_done hnames he hname
    obtain rfl : state = state' := Option.some.inj (hstate.symm.trans hstate')
    exact hbetter

end
end Intendant.Synthesis
