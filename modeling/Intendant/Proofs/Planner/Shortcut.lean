import Intendant.Proofs.Double.Scientific
import Intendant.Proofs.Graph.Solve
import Intendant.Proofs.Planner.Charted

/-! # The shortcut of a satisfied start

A start that is better than the goal is tied to it over a vertex of its own, where the goal is reached anyway. Where a
footprint that decides about the cost overflows, the synthesis is given up instead (`finished_cases`). -/

namespace Intendant.Synthesis

variable {start goal : State} {ps : Profiles} {s : Synthesis} {cost : Float} {u : Nat} {e : Edge Float}

theorem isBetter_intermediate : (intermediate start).isBetter goal ps = start.isBetter goal ps := rfl

theorem nonneg_penalty {hops : Float} (h : 0 ≤ hops) : 0 ≤ hops * shortcutPenalty := by
  obtain ⟨m, e, hm, hpenalty⟩ : ∃ m e h, Double.unpacked shortcutPenalty = .finite .positive m e h := ⟨_, _, _, rfl⟩
  exact Double.nonneg_mul_finite h hpenalty

/-- A shortcut costs something that is not negative, if its cost is there at all. -/
theorem nonneg_shortcutCost? {last : State} {hops : Nat} (h : shortcutCost? start last hops = some cost) : 0 ≤ cost := by
  obtain ⟨leaner, -, rfl⟩ := Option.map_eq_some_iff.mp h
  split
  · exact nonneg_penalty (Double.nonneg_ofNat _)
  · exact Double.nonneg_ofNat _

/-- Where the goal is reached the shortcut is offered, or the synthesis is given up for a footprint; elsewhere nothing
    happens. -/
theorem withShortcut_cases (start : State) (hstart : startId < s.graph.size) (hgoal : goalId < s.graph.size) :
    ¬s.graph.Reaches startId goalId ∧ s.withShortcut start = s ∨
      s.graph.Reaches startId goalId ∧
        ((∃ cost, 0 ≤ cost ∧ s.withShortcut start = s.detoured start cost) ∨ s.withShortcut start = s.givenUp) := by
  obtain ⟨r, hwithin, hcases⟩ := s.graph.solve_cases startId goalId .hops noEstimate nofun
  have hsolve : s.graph.solve startId goalId .hops noEstimate = r := hwithin _ le_rfl
  unfold withShortcut
  rw [hsolve]
  rcases hcases with ⟨rfl, hnot⟩ | ⟨es, hw, -, -, -, rfl⟩
  · exact .inl ⟨fun hreach => hnot ⟨hstart, hgoal, hreach⟩, rfl⟩
  · refine .inr ⟨⟨es, hw⟩, ?_⟩
    dsimp only
    split
    · rename_i hlast
      cases es with
      | nil => exact absurd hw start_ne_goal
      | cons e es => simp [Graph.visited] at hlast
    · split
      · rename_i cost hcost
        refine .inl ⟨cost, ?_, rfl⟩
        split at hcost
        · exact nonneg_shortcutCost? hcost
        · cases hcost
          exact Double.nonneg_ofNat _
      · exact .inr rfl

theorem finished_cases (start goal : State) (ps : Profiles) (hstart : startId < s.graph.size) (hgoal : goalId < s.graph.size) :
    finished start goal ps s = s ∨ start.isBetter goal ps = true ∧ s.graph.Reaches startId goalId ∧
      ((∃ cost, 0 ≤ cost ∧ finished start goal ps s = s.detoured start cost) ∨ finished start goal ps s = s.givenUp) := by
  unfold finished
  split
  · rename_i hbetter
    rcases withShortcut_cases start hstart hgoal with ⟨-, heq⟩ | ⟨hreach, heq⟩
    · exact .inl heq
    · exact .inr ⟨(Bool.and_eq_true_iff.mp hbetter).1, hreach, heq⟩
  · exact .inl rfl

/-- A start that is better than the goal gets its shortcut wherever the goal is reached, unless the synthesis is given
    up for a footprint. -/
theorem finished_of_reaches (hbetter : start.isBetter goal ps = true) (hstart : startId < s.graph.size)
    (hgoal : goalId < s.graph.size) (hreach : s.graph.Reaches startId goalId) :
    (∃ cost, 0 ≤ cost ∧ finished start goal ps s = s.detoured start cost) ∨ finished start goal ps s = s.givenUp := by
  obtain ⟨u, e, he, -⟩ := hreach.last_edge start_ne_goal
  have hedges : 0 < s.graph.edgeCount := Graph.edgeCount_pos he
  rw [finished, hbetter, decide_eq_true hedges, Bool.and_true, if_pos rfl]
  rcases withShortcut_cases start hstart hgoal with ⟨hnot, -⟩ | ⟨-, hdetoured⟩
  · exact absurd hreach hnot
  · exact hdetoured

theorem value?_detoured (start : State) (cost : Float) (u : Nat) :
    (s.detoured start cost).graph.value? u =
      if u = s.graph.size then some (intermediate start) else s.graph.value? u := by
  simp only [detoured, Graph.value?_addEdge, Graph.value?_addVertex]

theorem mem_successors_detoured (start : State) (cost : Float) (hstart : startId < s.graph.size) (hgoal : goalId < s.graph.size) :
    e ∈ (s.detoured start cost).graph.successors u ↔ e ∈ s.graph.successors u ∨
      u = startId ∧ e = ⟨s.graph.size, cost, { name := Action.done }⟩ ∨ u = s.graph.size ∧ e = arrival := by
  have hstart' := Nat.lt_succ_of_lt hstart
  have hgoal' := Nat.lt_succ_of_lt hgoal
  simp [detoured, arrival, Graph.mem_successors_addEdge, hstart', hgoal', or_assoc]

theorem values_detoured (start : State) (cost : Float) :
    (s.detoured start cost).graph.values = s.graph.values ++ [intermediate start] := by
  simp only [detoured, Graph.values_addEdge, Graph.values_addVertex]

@[simp] theorem size_detoured (start : State) (cost : Float) : (s.detoured start cost).graph.size = s.graph.size + 1 := by
  simp only [detoured, Graph.size_addEdge, Graph.size_addVertex]

theorem successors_detoured (start : State) (cost : Float) (hstart : startId < s.graph.size) (hgoal : goalId < s.graph.size)
    (u : Nat) :
    (s.detoured start cost).graph.successors u =
      if u = startId then s.graph.successors u ++ [⟨s.graph.size, cost, { name := Action.done }⟩]
      else if u = s.graph.size then [arrival] else s.graph.successors u := by
  have hstart' : startId < (s.graph.addVertex (intermediate start)).size := by
    rw [Graph.size_addVertex]
    exact Nat.lt_succ_of_lt hstart
  have hmiddle : s.graph.size < (s.graph.addVertex (intermediate start)).size := by
    rw [Graph.size_addVertex]
    exact Nat.lt_succ_self _
  have hgoal' := Nat.lt_trans hgoal hmiddle
  have hnil : s.graph.successors s.graph.size = [] := Graph.successors_eq_nil (Nat.le_refl _)
  rw [detoured, Graph.successors_addEdge (by rwa [Graph.size_addEdge]) (by rwa [Graph.size_addEdge]),
    Graph.successors_addEdge hstart' hmiddle, Graph.successors_addVertex]
  by_cases hu : u = startId
  · have hne : u ≠ s.graph.size := hu ▸ Nat.ne_of_lt hstart
    rw [if_neg hne, if_pos hu, if_pos hu]
  · rw [if_neg hu, if_neg hu]
    split
    · rename_i hsize
      rw [hsize, hnil]
      rfl
    · rfl

theorem better_detoured (hgoal : goalId < s.graph.size) (hbetter : start.isBetter goal ps = true) :
    Better goal ps (s.detoured start cost) s.graph.size :=
  ⟨hgoal, intermediate start, by rw [value?_detoured, if_pos rfl], isBetter_intermediate.trans hbetter⟩

end Intendant.Synthesis
