import Intendant.Proofs.Graph.Amount
import Intendant.Proofs.Graph.Repriced
import Intendant.Proofs.Planner.Plan
import Intendant.Proofs.Planner.Structure
import Intendant.Proofs.State.Distance

/-! # No plan is dearer than the shortcut

The distance of a state may exceed what is left of a way, so a search by utility need not find the cheapest one. But the
middle of a shortcut has the objectives of a start that is better than the goal, and so it is at no positive distance.
In exact amounts the path that is found costs no more than the shortcut (`createPlan_frugal`). -/

namespace Intendant
namespace Synthesis
open Search (price Payable)

section
variable {σ : Type} {limits : PlannerLimits} {actuators : List (Actuator σ)} {start goal : State} {ps : Profiles}
  {s : Synthesis} {cost : Float} {u : Nat} {e : Edge Float}

/-- An edge from the start to a vertex that was not explored belongs to a shortcut. -/
theorem Charted.detoured_of_edge (h : Charted limits actuators start goal ps s)
    (he : ⟨s.graph.size, cost, { name := Action.done }⟩ ∈ (finished start goal ps s).graph.successors startId) :
    start.isBetter goal ps = true ∧ finished start goal ps s = s.detoured start cost := by
  have hstart := Graph.lt_size_of_value? h.start_value
  have hgoal := Graph.lt_size_of_value? h.goal_value
  rcases finished_cases start goal ps hstart hgoal with heq | ⟨hbetter, -, ⟨cost', -, heq⟩ | heq⟩ <;> rw [heq] at he
  · exact absurd (h.target_lt he) (Nat.lt_irrefl _)
  · rcases (mem_successors_detoured start cost' hstart hgoal).mp he with he | ⟨-, hedge⟩ | ⟨hsize, -⟩
    · exact absurd (h.target_lt he) (Nat.lt_irrefl _)
    · cases hedge
      exact ⟨hbetter, heq⟩
    · exact absurd hsize (Nat.ne_of_lt hstart)
  · exact absurd (h.target_lt he) (Nat.lt_irrefl _)

theorem Searchable.payable {tied : List Nat} (h : Searchable limits actuators start goal ps tied s)
    (hanswers : Affordable limits s.asked) : Payable (s.graph.repriced Amount.ofFloat) .utility := by
  intro u e he
  rw [Graph.successors_repriced] at he
  obtain ⟨f, hf, rfl⟩ := List.mem_map.mp he
  exact Amount.sound_ofFloat ((h.justified u f hf).nonneg hanswers)

theorem price_repriced (es : List (Edge Float)) :
    price (es.map (·.repriced Amount.ofFloat)) = (es.map fun e => Double.value e.utility).sum := by
  simp only [price, List.map_map, Function.comp_def, Edge.repriced, Amount.toEReal_ofFloat]

/-- The search by utility in exact amounts. -/
noncomputable def searchWithin (s : Synthesis) (ps : Profiles) (rounds : Nat) : Route :=
  Search.within rounds (s.graph.repriced Amount.ofFloat) startId goalId .utility fun state goal =>
    Amount.ofFloat (state.distance goal ps)

theorem ends_distance (goal : State) (ps : Profiles) :
    Amount.ofFloat (goal.distance goal ps) = .number 0 ∨ Amount.ofFloat (goal.distance goal ps) = .undefined := by
  rcases State.distance_self goal ps with ⟨t, hzero⟩ | hnan
  · exact .inl (Amount.ofFloat_of_zero hzero)
  · exact .inr (Amount.ofFloat_of_nan hnan)

/-- The way over the middle of a shortcut bounds what a search in exact amounts finds. -/
theorem searchWithin_le (h : Searchable limits actuators start goal ps [] (s.detoured start cost))
    (hs : Charted limits actuators start goal ps s) (hanswers : Affordable limits s.asked)
    (hbetter : start.isBetter goal ps = true) (hfinite : ∀ x ∈ start.intent.objectives.toList, x.2.isFinite = true) :
    ∃ bound es, (∀ rounds, bound < rounds →
        (s.detoured start cost).searchWithin ps rounds = .found (Graph.visited startId es) (es.map (·.action))) ∧
      (s.detoured start cost).graph.Walk startId es goalId ∧ (Graph.visited startId es).Nodup ∧
      (es.map fun e => Double.value e.utility).sum ≤ Double.value cost := by
  have hstart := Graph.lt_size_of_value? hs.start_value
  have hgoal := Graph.lt_size_of_value? hs.goal_value
  have hsuccessors := successors_detoured start cost hstart hgoal
  -- The way over the middle costs what its first edge costs.
  have hw : (s.detoured start cost).graph.Walk startId [⟨s.graph.size, cost, { name := Action.done }⟩, arrival] goalId := by
    refine ⟨?_, ?_, rfl⟩
    · rw [hsuccessors, if_pos rfl]
      exact List.mem_append_right _ (List.mem_singleton_self _)
    · rw [hsuccessors, if_neg (Nat.ne_of_gt hstart), if_pos rfl]
      exact List.mem_singleton_self _
  have hprice : price ([⟨s.graph.size, cost, { name := Action.done }⟩, arrival].map (·.repriced Amount.ofFloat)) =
      Double.value cost := by
    have hzero : Double.value 0.0 = 0 := rfl
    rw [price_repriced]
    simp [arrival, hzero]
  have hmiddle : (s.detoured start cost).graph.value? s.graph.size = some (intermediate start) := by
    rw [value?_detoured, if_pos rfl]
  -- The middle has the objectives of the start, so the search does not put it off.
  have hdistance : start.distance goal ps ≤ 0 := State.distance_nonpos hbetter hfinite
  obtain ⟨bound, es, hfound, hes, hn, hle⟩ := Search.within_detour_bound
    ((s.detoured start cost).graph.repriced Amount.ofFloat) startId goalId
    (fun state goal => Amount.ofFloat (state.distance goal ps)) (h.payable hanswers) start_ne_goal
    ((Graph.value?_repriced ..).trans h.goal_value) (ends_distance goal ps) hw.repriced
    ((Graph.value?_repriced ..).trans hmiddle)
    ⟨_, Double.value_le_value hdistance, Amount.ofFloat_of_comparable (Double.le_iff.mp hdistance).1⟩
  obtain ⟨fs, hfs, rfl⟩ := Graph.exists_of_walk_repriced hes
  rw [Graph.visited_repriced, Graph.actions_repriced] at hfound
  rw [Graph.visited_repriced] at hn
  rw [price_repriced] at hle
  exact ⟨bound, fs, hfound, hfs, hn, hle.trans hprice.le⟩

end
end Synthesis

namespace Planner
open Synthesis

/-- No plan is dearer than the shortcut. Where the start has an edge to the middle of a shortcut, the flag is set and the
    plan comes from the search by utility. In exact amounts, with exact sums of utilities and distances, this search
    ends with a path that costs no more than that edge. -/
theorem createPlan_frugal {σ : Type} (limits : PlannerLimits) (actuators : List (Actuator σ)) (start goal : State)
    (ps : Profiles) (w : σ) {cost : Float}
    (hanswers : Affordable limits (build limits actuators start goal ps w).1.asked)
    (hfinite : ∀ x ∈ start.intent.objectives.toList, x.2.isFinite = true)
    (hshortcut : ⟨(explored limits actuators start goal ps w).1.graph.size, cost, { name := Action.done }⟩ ∈
      (build limits actuators start goal ps w).1.graph.successors startId) :
    let s := (build limits actuators start goal ps w).1
    s.hasGoal = true ∧ (createPlan limits actuators start goal ps w).1 = some (planOf (s.search ps)) ∧
    ∃ bound es, (∀ rounds, bound < rounds →
        s.searchWithin ps rounds = .found (Graph.visited startId es) (es.map (·.action))) ∧
      s.graph.Walk startId es goalId ∧ s.graph.IsPath startId goalId (Graph.visited startId es) (es.map (·.action)) ∧
      (es.map fun e => Double.value e.utility).sum ≤ Double.value cost := by
  intro s
  have hgrown : Grown limits actuators start goal ps (explored limits actuators start goal ps w).1 := explored_grown
  have hs := hgrown.charted
  have hsearch : Searchable limits actuators start goal ps [] s := hs.searchable
  obtain ⟨hbetter, hdetoured⟩ := hs.detoured_of_edge hshortcut
  have hs_eq : s = (explored limits actuators start goal ps w).1.detoured start cost := hdetoured
  have hasked : s.asked = (explored limits actuators start goal ps w).1.asked :=
    (build_finishes limits actuators start goal ps w).asked
  have hflag : s.hasGoal = true := by
    rw [hs_eq]
    rfl
  have hgoing : s.overflowed = false := by
    rw [hs_eq]
    exact hgrown.overflowed
  refine ⟨hflag, plan?_eq_some_iff.mpr ⟨hgoing, ?_⟩, ?_⟩
  · change planOf (s.route limits ps) = _
    rw [route, if_pos hflag]
  · rw [hs_eq] at hsearch ⊢
    obtain ⟨bound, es, hfound, hw, hn, hle⟩ := searchWithin_le hsearch hs (hasked ▸ hanswers) hbetter hfinite
    exact ⟨bound, es, hfound, hw, hw.isPath hn, hle⟩

/-- A state that is further beyond the goal than the one that is proposed. -/
def summit : State := { intent := { key := "t", objectives := KeyMap.empty.insert "x" 7.0 } }

/-- The exploration from a satisfied start to the state that is proposed for it. -/
def descended : Synthesis :=
  answered ⟨3, 5, 0⟩ there .empty (initial summit there) ⟨0, startId, summit, .ok [⟨beyond, 1.0, { name := "climb" }⟩]⟩

theorem explored_summit : (explored ⟨3, 5, 0⟩ [climber] summit there .empty ()).1 = descended := by
  rw [explored, explore, dif_pos (by decide)]
  change (explore _ there .empty [climber] (following startId) descended ()).1 = descended
  rw [explore, dif_neg (by decide)]

theorem createPlan_frugal_summit :
    let s := (build ⟨3, 5, 0⟩ [climber] summit there .empty ()).1
    Affordable ⟨3, 5, 0⟩ s.asked ∧ (∀ x ∈ summit.intent.objectives.toList, x.2.isFinite = true) ∧
      ⟨3, 1.0, { name := Action.done }⟩ ∈ s.graph.successors startId ∧
      ∃ bound es, (∀ rounds, bound < rounds →
          s.searchWithin .empty rounds = .found (Graph.visited startId es) (es.map (·.action))) ∧
        s.graph.Walk startId es goalId ∧ (es.map fun e => Double.value e.utility).sum ≤ Double.value 1.0 := by
  intro s
  have hs : s = finished summit there .empty descended := congrArg (finished summit there .empty) explored_summit
  have hanswers : Affordable ⟨3, 5, 0⟩ s.asked := by
    rw [hs]
    unfold Affordable
    decide +kernel
  have hfinite : ∀ x ∈ summit.intent.objectives.toList, x.2.isFinite = true := by decide
  have hsize : (explored ⟨3, 5, 0⟩ [climber] summit there .empty ()).1.graph.size = 3 := by
    rw [explored_summit]
    decide
  have hedge : ⟨3, 1.0, { name := Action.done }⟩ ∈ s.graph.successors startId := by
    have hrow : (s.graph.successors startId).map (fun e => (e.target, e.utility, e.action)) =
        [(2, 1.0, { name := "climb" }), (3, 1.0, { name := Action.done })] := by
      rw [hs]
      decide +kernel
    have hlast : (3, (1.0 : Float), ({ name := Action.done } : Action)) ∈
        (s.graph.successors startId).map fun e => (e.target, e.utility, e.action) := by
      rw [hrow]
      exact List.mem_cons_of_mem _ (List.mem_singleton_self _)
    obtain ⟨⟨target, utility, action⟩, he, heq⟩ := List.mem_map.mp hlast
    cases heq
    exact he
  obtain ⟨-, -, bound, es, hfound, hw, -, hle⟩ := createPlan_frugal ⟨3, 5, 0⟩ [climber] summit there .empty () hanswers
    hfinite (hsize.symm ▸ hedge)
  exact ⟨hanswers, hfinite, hedge, bound, es, hfound, hw, hle⟩

end Planner
end Intendant
