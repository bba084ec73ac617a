import Intendant.Proofs.Graph.Hops
import Intendant.Proofs.Planner.Plan
import Intendant.Proofs.State.Footprint

/-! # What a shortcut costs

The shortcut of a satisfied start costs as much as the fewest hops that lead to a state before the goal, whatever the
edges on the way cost (`build_shortcut_exact`). It costs a little more where that state is leaner than the start. Where
the footprints that decide this cannot be summed up, there is no shortcut, and the synthesis is given up
(`build_shortcut_overflows`). -/

namespace Intendant.Synthesis

/-- The last state before the goal has fewer pods than the start, or its resources sum up to less. -/
def Leaner (start last : State) : Prop := last.pods.size < start.pods.size ∨ last.total < start.total

instance (start last : State) : Decidable (Leaner start last) := inferInstanceAs (Decidable (_ ∨ _))

/-- The last state before the goal does not have fewer pods than the start, and one of the sums that are compared then
    overflows. -/
def Incomparable (start last : State) : Prop :=
  ¬last.pods.size < start.pods.size ∧ (last.Overflows ∨ start.Overflows)

section
variable {s : Synthesis} {path : List Nat} {actions : List Action}

/-- A path from the start to the goal has a vertex before its last one. -/
theorem exists_before_goal (h : s.graph.IsPath startId goalId path actions) :
    1 ≤ actions.length ∧ ∃ lastId last, path[actions.length - 1]? = some lastId ∧ s.graph.value? lastId = some last := by
  have hlength := h.length
  have hpos : 1 ≤ actions.length := by
    refine Nat.pos_of_ne_zero fun hzero => start_ne_goal ?_
    rw [hzero] at hlength
    obtain ⟨u, rfl⟩ := List.length_eq_one_iff.mp hlength
    exact Option.some.inj (h.first.symm.trans h.last)
  refine ⟨hpos, ?_⟩
  have hlast : path[actions.length - 1 + 1]? = some goalId := by
    rw [← h.last, List.getLast?_eq_getElem?, hlength]
    congr 1
    omega
  have hbefore : actions.length - 1 < path.length := by omega
  have haction : actions.length - 1 < actions.length := by omega
  obtain ⟨e, he, -⟩ := h.edge _ _ _ _ (List.getElem?_eq_getElem hbefore) hlast (List.getElem?_eq_getElem haction)
  obtain ⟨last, hvalue⟩ := Graph.exists_value? (Graph.lt_size_of_mem_successors he)
  exact ⟨_, last, List.getElem?_eq_getElem hbefore, hvalue⟩

theorem leaner?_of_incomparable {start last : State} (h : Incomparable start last) : leaner? start last = none := by
  rw [leaner?, if_neg h.1]
  exact State.lessResources?_eq_none_iff.mpr h.2

theorem leaner?_of_comparable {start last : State} (h : ¬Incomparable start last) :
    leaner? start last = some (decide (Leaner start last)) := by
  unfold leaner?
  split
  · rename_i hpods
    rw [decide_eq_true (.inl hpods)]
  · rename_i hpods
    have hfits : ¬(last.Overflows ∨ start.Overflows) := fun hover => h ⟨hpods, hover⟩
    obtain ⟨hlast, hstart⟩ := not_or.mp hfits
    refine State.lessResources?_eq_some_iff.mpr ⟨hlast, hstart, decide_eq_decide.mpr ?_⟩
    rw [Leaner, or_iff_right hpods]

end

/-! ### What is found by hops -/

/-- The search by hops finds a path to the goal, with a vertex and its state right before the goal. -/
structure FoundOver (s : Synthesis) (path : List Nat) (actions : List Action) (lastId : Nat) (last : State) : Prop where
  solve_eq : s.graph.solve startId goalId .hops noEstimate = .found path actions
  before : path[actions.length - 1]? = some lastId
  value : s.graph.value? lastId = some last

/-- The start is better than the goal, but cannot be compared with the last state before the goal on the path found. -/
def Undecided (start goal : State) (ps : Profiles) (s : Synthesis) : Prop :=
  start.isBetter goal ps = true ∧ ∃ path actions lastId last, s.FoundOver path actions lastId last ∧ Incomparable start last

section
variable {s : Synthesis} {start goal last : State} {ps : Profiles} {path : List Nat} {actions : List Action} {lastId : Nat}

theorem exists_foundOver (hstart : startId < s.graph.size) (hgoal : goalId < s.graph.size)
    (hreach : s.graph.Reaches startId goalId) : ∃ path actions lastId last, s.FoundOver path actions lastId last := by
  obtain ⟨es, -, -, hsolve⟩ := s.graph.exists_solve_found startId goalId .hops noEstimate nofun hstart hgoal hreach
  obtain ⟨-, lastId, last, hbefore, hvalue⟩ := exists_before_goal (Graph.isPath_of_solve hsolve nofun)
  exact ⟨_, _, lastId, last, hsolve, hbefore, hvalue⟩

namespace FoundOver

theorem isPath (h : s.FoundOver path actions lastId last) : s.graph.IsPath startId goalId path actions :=
  Graph.isPath_of_solve h.solve_eq nofun

theorem reaches (h : s.FoundOver path actions lastId last) : s.graph.Reaches startId goalId := by
  obtain ⟨⟨es, hes, -⟩, -⟩ := Graph.hops_of_solve h.solve_eq
  exact ⟨es, hes⟩

/-- A start that is better than the goal is offered the shortcut, at the cost of the path found. -/
theorem finished_eq (h : s.FoundOver path actions lastId last) (hbetter : start.isBetter goal ps = true) :
    finished start goal ps s = match shortcutCost? start last (actions.length - 1) with
      | some cost => s.detoured start cost
      | none => s.givenUp := by
  obtain ⟨u, e, he, -⟩ := h.reaches.last_edge start_ne_goal
  have hlength := h.isPath.length
  have hpos := (exists_before_goal h.isPath).1
  have hlast : path.dropLast.getLast? = some lastId := by
    rw [List.getLast?_eq_getElem?, List.length_dropLast, List.getElem?_dropLast, hlength, if_pos (by omega), ← h.before]
    rfl
  have hhops : path.length - 2 = actions.length - 1 := by omega
  rw [finished, hbetter, decide_eq_true (Graph.edgeCount_pos he), Bool.and_true, if_pos rfl, withShortcut]
  cases hcost : shortcutCost? start last (actions.length - 1) with
  | none => simp only [h.solve_eq, hlast, h.value, hhops, hcost]
  | some cost => simp only [h.solve_eq, hlast, h.value, hhops, hcost]

theorem detoured (h : s.FoundOver path actions lastId last) (hbetter : start.isBetter goal ps = true)
    (hdecided : ¬Incomparable start last) :
    finished start goal ps s = s.detoured start
      (if Leaner start last then Float.ofNat (actions.length - 1) * 1.01 else Float.ofNat (actions.length - 1)) := by
  rw [h.finished_eq hbetter, shortcutCost?, leaner?_of_comparable hdecided, Option.map_some]
  dsimp only
  congr 1
  simp only [decide_eq_true_eq]
  rfl

theorem givenUp (h : s.FoundOver path actions lastId last) (hbetter : start.isBetter goal ps = true)
    (hundecided : Incomparable start last) : finished start goal ps s = s.givenUp := by
  rw [h.finished_eq hbetter, shortcutCost?, leaner?_of_incomparable hundecided, Option.map_none]

end FoundOver

/-- The synthesis is given up exactly where the cost of a shortcut cannot be decided. -/
theorem overflowed_finished_iff (hgoing : s.overflowed = false) (hstart : startId < s.graph.size)
    (hgoal : goalId < s.graph.size) : (finished start goal ps s).overflowed = true ↔ Undecided start goal ps s := by
  constructor
  · intro hover
    rcases finished_cases start goal ps hstart hgoal with heq | ⟨hbetter, hreach, -⟩
    · rw [heq, hgoing] at hover
      cases hover
    · obtain ⟨path, actions, lastId, last, h⟩ := exists_foundOver hstart hgoal hreach
      refine ⟨hbetter, path, actions, lastId, last, h, Classical.byContradiction fun hdecided => ?_⟩
      rw [h.detoured hbetter hdecided] at hover
      exact Bool.false_ne_true (hgoing.symm.trans hover)
  · rintro ⟨hbetter, path, actions, lastId, last, h, hundecided⟩
    rw [h.givenUp hbetter hundecided]
    rfl

end

/-- A start that is better than the goal and reaches it gets one vertex more, a copy of the start with a target key of
    its own, and two edges over it to the goal. The first one costs one hop less than the fewest that lead to the goal,
    and more by a factor where the last state before the goal on the path found has fewer pods than the start, or its
    resources sum up to less. The path and its length are the same with any other utilities on the edges. Only where the
    pods do not decide and one of the two sums overflows, the synthesis is given up and its graph stays as it was
    explored. In all other cases the explored graph is what is built. -/
theorem build_shortcut_exact {σ : Type} (limits : PlannerLimits) (actuators : List (Actuator σ)) (start goal : State)
    (ps : Profiles) (w : σ) :
    let before := (explored limits actuators start goal ps w).1
    let after := (build limits actuators start goal ps w).1
    before.overflowed = false ∧
    (∀ d, start.isBetter goal ps = true → before.graph.Hops startId goalId d →
      1 ≤ d ∧ ∃ path actions lastId last,
        before.graph.solve startId goalId .hops noEstimate = .found path actions ∧
        before.graph.IsPath startId goalId path actions ∧ actions.length = d ∧
        path[d - 1]? = some lastId ∧ before.graph.value? lastId = some last ∧
        (∀ f : Float → Float, (before.graph.repriced f).Hops startId goalId d ∧
          (before.graph.repriced f).solve startId goalId .hops noEstimate = .found path actions) ∧
        (¬Incomparable start last →
          let cost := if Leaner start last then Float.ofNat (d - 1) * 1.01 else Float.ofNat (d - 1)
          after.graph.values = before.graph.values ++ [{ start with intent.targetKey := "intermediate" }] ∧
          (∀ u, after.graph.successors u =
            if u = startId then before.graph.successors u ++ [⟨before.graph.size, cost, { name := Action.done }⟩]
            else if u = before.graph.size then [⟨goalId, 0.0, { name := Action.done }⟩]
            else before.graph.successors u) ∧
          after.hasGoal = true ∧ after.asked = before.asked ∧ after.overflowed = false) ∧
        (Incomparable start last → after = { before with hasGoal := true, overflowed := true })) ∧
    (¬(start.isBetter goal ps = true ∧ before.graph.Reaches startId goalId) → after = before) := by
  intro before after
  have hgrown : Grown limits actuators start goal ps before := explored_grown
  have hstart := Graph.lt_size_of_value? hgrown.charted.start_value
  have hgoal := Graph.lt_size_of_value? hgrown.charted.goal_value
  have hafter : after = finished start goal ps before := rfl
  refine ⟨hgrown.overflowed, fun d hbetter hhops => ?_, fun hnot => ?_⟩
  · have hreach : before.graph.Reaches startId goalId := by
      obtain ⟨⟨es, hes, -⟩, -⟩ := hhops
      exact ⟨es, hes⟩
    obtain ⟨path, actions, lastId, last, hfound⟩ := exists_foundOver hstart hgoal hreach
    -- The search counts hops, so the path that it finds has as many as a shortest one.
    obtain rfl : actions.length = d := (Graph.hops_of_solve hfound.solve_eq).unique hhops
    refine ⟨(exists_before_goal hfound.isPath).1, path, actions, lastId, last, hfound.solve_eq, hfound.isPath, rfl,
      hfound.before, hfound.value, fun f => ⟨?_, ?_⟩, fun hdecided => ?_, fun hundecided => ?_⟩
    · exact (Graph.hops_repriced f).mpr hhops
    · rw [Graph.solve_repriced, hfound.solve_eq]
    · intro cost
      have hdetoured : after = before.detoured start cost := hfound.detoured hbetter hdecided
      rw [hdetoured]
      exact ⟨values_detoured start cost, successors_detoured start cost hstart hgoal, rfl, rfl, hgrown.overflowed⟩
    · rw [hafter, hfound.givenUp hbetter hundecided]
      rfl
  · rcases finished_cases start goal ps hstart hgoal with heq | ⟨hbetter, hreach, -⟩
    · exact heq
    · exact absurd ⟨hbetter, hreach⟩ hnot

/-- A start beyond the goal with more resources than can be summed up. -/
def laden : State :=
  { intent := { key := "s", objectives := KeyMap.empty.insert "x" 7.0 }, resources := State.brimming.resources }

/-- The exploration from that start: one question about it, which leaves no room. -/
def ascended : Synthesis :=
  answered ⟨3, 5, 0⟩ there .empty (initial laden there)
    ⟨0, startId, laden, .ok [⟨Planner.beyond, 1.0, { name := "climb" }⟩]⟩

theorem explored_laden : (explored ⟨3, 5, 0⟩ [Planner.climber] laden there .empty ()).1 = ascended := by
  rw [explored, explore, dif_pos (by decide)]
  change (explore _ there .empty [Planner.climber] (following startId) ascended ()).1 = ascended
  rw [explore, dif_neg (by decide)]

theorem overflowed_laden : (build ⟨3, 5, 0⟩ [Planner.climber] laden there .empty ()).1.overflowed = true := by
  have hbuild : (build ⟨3, 5, 0⟩ [Planner.climber] laden there .empty ()).1 = finished laden there .empty ascended :=
    congrArg (finished laden there .empty) explored_laden
  rw [hbuild]
  decide +kernel

/-- A start that is better than the goal may reach it and get no shortcut, nor a plan: its resources overflow. -/
theorem build_shortcut_overflows :
    let before := (explored ⟨3, 5, 0⟩ [Planner.climber] laden there .empty ()).1
    let after := (build ⟨3, 5, 0⟩ [Planner.climber] laden there .empty ()).1
    laden.isBetter there .empty = true ∧ before.graph.Hops startId goalId 2 ∧
      after.graph.values = before.graph.values ∧ after.overflowed = true ∧
      (Planner.createPlan ⟨3, 5, 0⟩ [Planner.climber] laden there .empty ()).1 = none := by
  intro before after
  have hbefore : before = ascended := explored_laden
  have hafter : after = finished laden there .empty ascended := congrArg (finished laden there .empty) explored_laden
  refine ⟨by decide, ?_, ?_, overflowed_laden, Planner.plan?_eq_none_iff.mpr overflowed_laden⟩
  · have hsolve : ascended.graph.solve startId goalId .hops noEstimate =
        .found [0, 2, 1] [{ name := "climb" }, { name := Action.done }] := by
      decide +kernel
    rw [hbefore]
    exact Graph.hops_of_solve hsolve
  · rw [hafter, hbefore]
    decide +kernel

end Intendant.Synthesis
