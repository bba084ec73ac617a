import Intendant.Proofs.Planner.Plan
import Intendant.Proofs.Planner.Structure

/-! # Plans for satisfied starts

A start that is better than the goal has a shortcut wherever the goal is reached. So the last action of its plan leads
to a state that is better than the goal or equal to it exactly if the flag of the graph is set
(`createPlan_satisfied`). Otherwise the plan follows an opportunity, which may lead away from the goal
(`createPlan_leaves_satisfied_start`). -/

namespace Intendant

/-- The steps of a route: every action with the vertices before and after it. -/
def Route.steps : Route → List (Nat × Nat × Action)
  | .found path actions => path.zip (path.tail.zip actions)
  | _ => []

/-- The last step whose action the planner did not put there itself. -/
def Route.lastStep? (r : Route) : Option (Nat × Nat × Action) :=
  (r.steps.filter fun (_, _, a) => !a.isSynthetic).getLast?

/-- The edges of a walk, each with the vertex that it leaves. -/
def Graph.departures (u : Nat) (es : List (Edge Float)) : List (Nat × Edge Float) := (visited u es).zip es

/-- The last edge of a walk whose action is not synthetic, with the vertex that it leaves. -/
def Graph.lastDeparture? (u : Nat) (es : List (Edge Float)) : Option (Nat × Edge Float) :=
  ((departures u es).filter fun (_, e) => !e.action.isSynthetic).getLast?

namespace Synthesis

section
variable {σ : Type} {limits : PlannerLimits} {actuators : List (Actuator σ)} {start goal : State} {ps : Profiles}
  {s : Synthesis} {tied : List Nat} {u v : Nat} {e : Edge Float} {es : List (Edge Float)}

/-! ### The last step of a route -/

theorem departures_cons : Graph.departures u (e :: es) = (u, e) :: Graph.departures e.target es := rfl

theorem lastDeparture?_cons : Graph.lastDeparture? u (e :: es) =
    (Graph.lastDeparture? e.target es).or (if e.action.isSynthetic then none else some (u, e)) := by
  unfold Graph.lastDeparture?
  rw [departures_cons, ← List.singleton_append, List.filter_append, List.getLast?_append]
  cases hsynthetic : e.action.isSynthetic <;> simp [hsynthetic]

theorem steps_found (u : Nat) (es : List (Edge Float)) :
    (Route.found (Graph.visited u es) (es.map (·.action))).steps =
      (Graph.departures u es).map fun (v, e) => (v, e.target, e.action) := by
  induction es generalizing u with
  | nil => rfl
  | cons e es ih => exact congrArg ((u, e.target, e.action) :: ·) (ih e.target)

theorem lastStep?_found (u : Nat) (es : List (Edge Float)) :
    (Route.found (Graph.visited u es) (es.map (·.action))).lastStep? =
      (Graph.lastDeparture? u es).map fun (v, e) => (v, e.target, e.action) := by
  rw [Route.lastStep?, steps_found, List.filter_map, List.getLast?_map]
  rfl

theorem getLast?_planOf (u : Nat) (es : List (Edge Float)) :
    (Planner.planOf (.found (Graph.visited u es) (es.map (·.action)))).getLast? =
      (Graph.lastDeparture? u es).map fun (_, e) => e.action := by
  have hactions : es.map (·.action) = (Graph.departures u es).map fun (_, e) => e.action := by
    induction es generalizing u with
    | nil => rfl
    | cons e es ih => exact congrArg (e.action :: ·) (ih e.target)
  rw [Planner.planOf, Route.actions, hactions, List.filter_map, List.getLast?_map]
  rfl

theorem Justified.proposed_of (h : Justified limits goal ps s tied u e) (hreal : e.action.isSynthetic = false) :
    Proposed limits s u e := by
  cases h with
  | proposed h => exact h
  | better => cases hreal
  | shortcut => cases hreal
  | opportunity => cases hreal

/-- The last proposal on a way to the goal leads to the goal, to a vertex that is better, or to one that is tied to the
    goal, as long as the way does not come back to the start. -/
theorem Searchable.lastDeparture?_ends (h : Searchable limits actuators start goal ps tied s)
    (hanswers : Acceptable limits s.asked) (hw : s.graph.Walk u es goalId) (hstart : ∀ e ∈ es, e.target ≠ startId)
    (hlast : Graph.lastDeparture? u es = some (v, e)) :
    Proposed limits s v e ∧ e.target ≠ startId ∧
      (e.target = goalId ∨ Better goal ps s e.target ∨ e.target ∈ tied) := by
  induction es generalizing u with
  | nil => cases hlast
  | cons f es ih =>
    obtain ⟨hf, hes⟩ := hw
    rw [lastDeparture?_cons, Option.or_eq_some_iff] at hlast
    rcases hlast with hrest | ⟨hnone, hlast⟩
    · exact ih hes (fun e he => hstart e (List.mem_cons_of_mem f he)) hrest
    · split at hlast
      · cases hlast
      · rename_i hreal
        cases hlast
        refine ⟨(h.justified v e hf).proposed_of (Bool.eq_false_iff.mpr hreal), hstart e List.mem_cons_self, ?_⟩
        cases es with
        | nil => exact .inl hes
        -- The edge after the last proposal is one that the planner put there.
        | cons g es =>
          rw [lastDeparture?_cons, Option.or_eq_none_iff] at hnone
          have hg := h.justified e.target g hes.1
          have hne := hstart e List.mem_cons_self
          generalize e.target = t at hg hne ⊢
          cases hg with
          | proposed hp =>
            obtain ⟨q, hq, c, hc, -, -, -, haction⟩ := hp
            rw [haction, (hanswers q hq c hc).2] at hnone
            cases hnone.2
          | better hb => exact .inr (.inl hb)
          | shortcut => exact absurd rfl hne
          | opportunity hu => exact .inr (.inr hu)

theorem Searchable.search_lastStep? (h : Searchable limits actuators start goal ps tied s)
    (hanswers : Acceptable limits s.asked) (hplan : Planner.planOf (s.search ps) ≠ []) :
    ∃ v e, (s.search ps).lastStep? = some (v, e.target, e.action) ∧
      (Planner.planOf (s.search ps)).getLast? = some e.action ∧ Proposed limits s v e ∧ e.target ≠ startId ∧
      (e.target = goalId ∨ Better goal ps s e.target ∨ e.target ∈ tied) := by
  rcases h.search_cases hanswers.affordable with heq | ⟨es, hw, hn, heq⟩
  · rw [heq] at hplan
    exact absurd rfl hplan
  · have hstart : ∀ e ∈ es, e.target ≠ startId := by
      intro e he htarget
      exact (List.nodup_cons.mp hn).1 (List.mem_map.mpr ⟨e, he, htarget⟩)
    have hgetLast := getLast?_planOf startId es
    rw [heq] at hplan ⊢
    rw [lastStep?_found, hgetLast]
    cases hlast : Graph.lastDeparture? startId es with
    | none =>
      rw [hlast] at hgetLast
      exact absurd (List.getLast?_eq_none_iff.mp hgetLast) hplan
    | some last => exact ⟨last.1, last.2, rfl, rfl, h.lastDeparture?_ends hanswers hw hstart hlast⟩

theorem proposed_withOpportunities (limit : Nat) :
    Proposed limits (s.withOpportunities limit ps) u e ↔ Proposed limits s u e := by
  simp only [Proposed, value?_withOpportunities]
  rfl

theorem better_withOpportunities (limit : Nat) :
    Better goal ps (s.withOpportunities limit ps) u ↔ Better goal ps s u := by
  simp only [Better, value?_withOpportunities]

/-- The last step of the way that a planner takes. Only without the flag it may lead to a vertex tied to the goal. -/
theorem Searchable.route_lastStep? (h : Searchable limits actuators start goal ps [] s)
    (hanswers : Acceptable limits s.asked) (hplan : Planner.planOf (s.route limits ps) ≠ []) :
    ∃ v e, (s.route limits ps).lastStep? = some (v, e.target, e.action) ∧
      (Planner.planOf (s.route limits ps)).getLast? = some e.action ∧ Proposed limits s v e ∧ e.target ≠ startId ∧
      (e.target = goalId ∨ Better goal ps s e.target ∨ s.hasGoal = false ∧ 0 < limits.opportunistic ∧
        e.target ∈ (s.closest ps).toList.take limits.opportunistic) := by
  rcases route_cases limits ps s with ⟨-, heq⟩ | ⟨hunset, hlimit, heq⟩ | heq <;> rw [heq] at hplan ⊢
  · obtain ⟨v, e, hstep, hlast, hproposed, hne, hends⟩ := h.search_lastStep? hanswers hplan
    exact ⟨v, e, hstep, hlast, hproposed, hne,
      hends.imp_right (.imp_right fun htied => absurd htied List.not_mem_nil)⟩
  · obtain ⟨v, e, hstep, hlast, hproposed, hne, hends⟩ :=
      (h.withOpportunities limits.opportunistic).search_lastStep? hanswers hplan
    rw [proposed_withOpportunities] at hproposed
    rw [better_withOpportunities] at hends
    exact ⟨v, e, hstep, hlast, hproposed, hne,
      hends.imp_right (.imp_right fun htied => ⟨hunset, hlimit, htied⟩)⟩
  · exact absurd rfl hplan

/-! ### Satisfied starts -/

/-- With a satisfied start the flag is set exactly if the explored graph reaches the goal. -/
theorem Grown.hasGoal_finished_iff (h : Grown limits actuators start goal ps s) (hbetter : start.isBetter goal ps = true) :
    (finished start goal ps s).hasGoal = true ↔ s.graph.Reaches startId goalId := by
  have hs := h.charted
  have hstart := Graph.lt_size_of_value? hs.start_value
  have hgoal := Graph.lt_size_of_value? hs.goal_value
  constructor
  · intro hflag
    rcases finished_cases start goal ps hstart hgoal with heq | ⟨-, hreach, -⟩
    · rw [heq] at hflag
      exact h.reaches_goal_iff.mpr (.inl (hs.hasGoal.mp hflag))
    · exact hreach
  · intro hreach
    rcases finished_of_reaches hbetter hstart hgoal hreach with ⟨cost, -, heq⟩ | heq <;> rw [heq] <;> rfl

end
end Synthesis

namespace Planner
open Synthesis

/-- A satisfied start is made worse only by opportunity. The flag of its graph is set exactly if the exploration reaches
    the goal. The last action of a plan belongs to the last step of its route that is not synthetic; there it carries a
    candidate with the state of the vertex that the step leads to. The state is better than the goal or equal to it
    exactly if the flag is set, and otherwise it stands in one of the vertices that are tied to the goal. -/
theorem createPlan_satisfied {σ : Type} (limits : PlannerLimits) (actuators : List (Actuator σ)) (start goal : State)
    (ps : Profiles) (w : σ) (hanswers : Acceptable limits (build limits actuators start goal ps w).1.asked)
    (hbetter : start.isBetter goal ps = true) :
    let s := (build limits actuators start goal ps w).1
    (s.hasGoal = true ↔ (explored limits actuators start goal ps w).1.graph.Reaches startId goalId) ∧
    ∀ plan, (createPlan limits actuators start goal ps w).1 = some plan →
    (plan ≠ [] → ∃ q ∈ s.asked, ∃ c ∈ q.looked limits, ∃ v,
      Honest actuators goal ps q ∧ plan.getLast? = some c.action ∧
      (s.route limits ps).lastStep? = some (q.vertex, v, c.action) ∧ s.graph.value? v = some c.state ∧
      (c.state.isBetter goal ps = true ∨ c.state = goal ↔ s.hasGoal = true) ∧
      (s.hasGoal = false → 0 < limits.opportunistic ∧ v ∈ (s.closest ps).toList.take limits.opportunistic)) := by
  intro s
  have hgrown : Grown limits actuators start goal ps (explored limits actuators start goal ps w).1 := explored_grown
  have hsearch : Searchable limits actuators start goal ps [] s := hgrown.charted.searchable
  have hflag : s.hasGoal = true ↔ (explored limits actuators start goal ps w).1.graph.Reaches startId goalId :=
    hgrown.hasGoal_finished_iff hbetter
  have hasked : s.asked = (explored limits actuators start goal ps w).1.asked :=
    (build_finishes limits actuators start goal ps w).asked
  refine ⟨hflag, fun plan hsome hplan => ?_⟩
  obtain ⟨-, rfl⟩ := plan?_eq_some_iff.mp hsome
  obtain ⟨v, e, hstep, hlast, ⟨q, hq, c, hc, rfl, hvalue, -, haction⟩, hne, hends⟩ :=
    hsearch.route_lastStep? hanswers hplan
  rw [haction] at hstep hlast
  -- The last proposal ends in the goal, in a better vertex or in a tied one; the first two come with the flag.
  have hset_of_better : ∀ u, Better goal ps s u → s.hasGoal = true := fun u hb => hgrown.finished_goal.1.mpr (.inl ⟨u, hb⟩)
  have hset_of_goal : c.state = goal → s.hasGoal = true := fun heq =>
    hflag.mpr (hgrown.reaches_goal_iff.mpr (.inr ⟨q, hasked ▸ hq, c, hc, heq⟩))
  have hstate_of_goal : e.target = goalId → c.state = goal := by
    intro htarget
    rw [htarget, hsearch.goal_value] at hvalue
    exact (Option.some.inj hvalue).symm
  refine ⟨q, hq, c, hc, e.target, (hsearch.asked q hq).1, hlast, hstep, hvalue, ⟨?_, fun hset => ?_⟩, fun hunset => ?_⟩
  · rintro (hb | heq)
    · by_cases htarget : e.target = goalId
      · exact hset_of_goal (hstate_of_goal htarget)
      · have hbehind : goalId < e.target := Nat.lt_of_le_of_ne (Nat.pos_of_ne_zero hne) (Ne.symm htarget)
        exact hset_of_better e.target ⟨hbehind, c.state, hvalue, hb⟩
    · exact hset_of_goal heq
  · rcases hends with htarget | ⟨-, state, hstate, hb⟩ | ⟨hunset, -⟩
    · exact .inr (hstate_of_goal htarget)
    · obtain rfl : c.state = state := Option.some.inj (hvalue.symm.trans hstate)
      exact .inl hb
    · exact absurd hset (Bool.eq_false_iff.mp hunset)
  · have hnot := Bool.eq_false_iff.mp hunset
    rcases hends with htarget | hb | ⟨-, hlimit, htied⟩
    · exact absurd (hset_of_goal (hstate_of_goal htarget)) hnot
    · exact absurd (hset_of_better e.target hb) hnot
    · exact ⟨hlimit, htied⟩

/-- The lowest state. -/
def pit : State := { intent := { key := "p", objectives := KeyMap.empty.insert "x" 0.0 } }

/-- An actuator that proposes the lowest state for one state, and nothing for any other. -/
def faller : Actuator Unit where
  name := "faller"
  group := "test"
  nextState state _ _ w := (.ok (if state = there then [⟨pit, 1.0, { name := "fall" }⟩] else []), w)
  perform _ _ w := (.ok (), w)
  effect _ _ w := (.ok (), w)

/-- The exploration from the satisfied start: one question about the start and one about the state proposed for it. -/
def fallen : Synthesis :=
  [⟨0, startId, there, .ok [⟨pit, 1.0, { name := "fall" }⟩]⟩, ⟨0, 2, pit, .ok []⟩].foldl
    (answered ⟨10, 5, 1⟩ here .empty) (initial there here)

theorem build_faller : (build ⟨10, 5, 1⟩ [faller] there here .empty ()).1 = finished there here .empty fallen := by
  have hexplored : (explored ⟨10, 5, 1⟩ [faller] there here .empty ()).1 = fallen := by
    rw [explored, explore, dif_pos (by decide)]
    change (explore _ here .empty [faller] (following startId) (answered ⟨10, 5, 1⟩ here .empty (initial there here)
      ⟨0, startId, there, .ok [⟨pit, 1.0, { name := "fall" }⟩]⟩) ()).1 = fallen
    rw [explore, dif_pos (by decide +kernel)]
    change (explore _ here .empty [faller] (following 2) fallen ()).1 = fallen
    rw [explore, dif_neg (by decide +kernel)]
  rw [← hexplored]
  rfl

theorem acceptable_faller : Acceptable ⟨10, 5, 1⟩ (build ⟨10, 5, 1⟩ [faller] there here .empty ()).1.asked := by
  rw [build_faller]
  unfold Acceptable
  decide +kernel

theorem createPlan_faller : (createPlan ⟨10, 5, 1⟩ [faller] there here .empty ()).1 = some [{ name := "fall" }] := by
  change plan? ⟨10, 5, 1⟩ .empty (build ⟨10, 5, 1⟩ [faller] there here .empty ()).1 = _
  rw [build_faller]
  decide +kernel

/-- A plan may lead a satisfied start to a state that is neither better than the goal nor equal to it. -/
theorem createPlan_leaves_satisfied_start :
    let s := (build ⟨10, 5, 1⟩ [faller] there here .empty ()).1
    Acceptable ⟨10, 5, 1⟩ s.asked ∧ there.isBetter here .empty = true ∧
      (createPlan ⟨10, 5, 1⟩ [faller] there here .empty ()).1 = some [{ name := "fall" }] ∧
      (s.route ⟨10, 5, 1⟩ .empty).lastStep? = some (startId, 2, { name := "fall" }) ∧ s.graph.value? 2 = some pit ∧
      pit.isBetter here .empty = false ∧ pit ≠ here := by
  refine ⟨acceptable_faller, by decide, createPlan_faller, ?_, ?_, by decide, by decide⟩ <;> rw [build_faller] <;>
    decide +kernel

theorem createPlan_satisfied_faller :
    let s := (build ⟨10, 5, 1⟩ [faller] there here .empty ()).1
    Acceptable ⟨10, 5, 1⟩ s.asked ∧ there.isBetter here .empty = true ∧
      ¬(explored ⟨10, 5, 1⟩ [faller] there here .empty ()).1.graph.Reaches startId goalId ∧
      ∃ v, v ∈ (s.closest .empty).toList.take 1 ∧ ∃ q ∈ s.asked, ∃ c ∈ q.looked ⟨10, 5, 1⟩,
        (s.route ⟨10, 5, 1⟩ .empty).lastStep? = some (q.vertex, v, c.action) ∧ s.graph.value? v = some c.state := by
  intro s
  have hbetter : there.isBetter here .empty = true := by decide
  have hunset : s.hasGoal = false := by
    rw [show s = finished there here .empty fallen from build_faller]
    decide +kernel
  obtain ⟨hflag, hplan⟩ := createPlan_satisfied ⟨10, 5, 1⟩ [faller] there here .empty () acceptable_faller hbetter
  obtain ⟨q, hq, c, hc, v, -, -, hstep, hvalue, -, htied⟩ := hplan _ createPlan_faller (List.cons_ne_nil _ _)
  refine ⟨acceptable_faller, hbetter, fun hreach => ?_, v, (htied hunset).2, q, hq, c, hc, hstep, hvalue⟩
  exact Bool.false_ne_true (hunset.symm.trans (hflag.mpr hreach))

end Planner
end Intendant
