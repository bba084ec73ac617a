import Intendant.Proofs.Planner.Goal

/-! # Plans lead where they should

Every edge of the graph that is searched is justified: it carries a proposal, or the planner put it there and its
action is synthetic (`Justified`). An edge of the planner ends the way or, at the start, leads over the middle of
a shortcut. So what is left of a found way after the synthetic actions are taken out is a chain of proposals from the
start (`Led`). -/

namespace Intendant.Synthesis

/-- Why an edge is in the graph that is searched, where some vertices may be tied to the goal. -/
inductive Justified (limits : PlannerLimits) (goal : State) (ps : Profiles) (s : Synthesis) (tied : List Nat) :
    Nat → Edge Float → Prop
  | proposed {u : Nat} {e : Edge Float} (h : Proposed limits s u e) : Justified limits goal ps s tied u e
  | better {u : Nat} (h : Better goal ps s u) : Justified limits goal ps s tied u arrival
  | shortcut {middle : Nat} {cost : Float} (hcost : 0 ≤ cost)
      (h : ∀ e ∈ s.graph.successors middle, e.target = goalId ∧ e.action.isSynthetic = true) :
      Justified limits goal ps s tied startId ⟨middle, cost, { name := Action.done }⟩
  | opportunity {u : Nat} (h : u ∈ tied) :
      Justified limits goal ps s tied u ⟨goalId, 0.0, { name := Action.opportunistic }⟩

/-- The actions lead from one state to another one, each carried by a candidate that was looked at when an actuator
    was asked about the state before it. -/
inductive Led (limits : PlannerLimits) (asked : Array Asked) : State → List Action → State → Prop
  | refl (state : State) : Led limits asked state [] state
  | step {q : Asked} {c : Candidate} {actions : List Action} {last : State} (hq : q ∈ asked)
      (hc : c ∈ q.looked limits) (h : Led limits asked c.state actions last) :
      Led limits asked q.state (c.action :: actions) last

/-- Where a plan may end: at a state better than the goal or equal to it, or at one that is tied to the goal. -/
def Ends (goal : State) (ps : Profiles) (s : Synthesis) (tied : List Nat) (last : State) : Prop :=
  last.isBetter goal ps = true ∨ last = goal ∨ ∃ u ∈ tied, s.graph.value? u = some last

/-- What a search for a plan relies on. -/
structure Searchable {σ : Type} (limits : PlannerLimits) (actuators : List (Actuator σ)) (start goal : State)
    (ps : Profiles) (tied : List Nat) (s : Synthesis) : Prop where
  start_value : s.graph.value? startId = some start
  goal_value : s.graph.value? goalId = some goal
  asked : ∀ q ∈ s.asked, Honest actuators goal ps q ∧ s.graph.value? q.vertex = some q.state
  justified : ∀ u, ∀ e ∈ s.graph.successors u, Justified limits goal ps s tied u e

/-- What is assumed of the answers: no candidate that is looked at has a negative utility or a reserved name. -/
def Acceptable (limits : PlannerLimits) (asked : Array Asked) : Prop :=
  ∀ q ∈ asked, ∀ c ∈ q.looked limits, 0 ≤ c.utility ∧ c.action.isSynthetic = false

/-- What a search needs of the answers in order to end. -/
def Affordable (limits : PlannerLimits) (asked : Array Asked) : Prop :=
  ∀ q ∈ asked, ∀ c ∈ q.looked limits, 0 ≤ c.utility

theorem Acceptable.affordable {limits : PlannerLimits} {asked : Array Asked} (h : Acceptable limits asked) :
    Affordable limits asked := fun q hq c hc => (h q hq c hc).1

section
variable {σ : Type} {limits : PlannerLimits} {actuators : List (Actuator σ)} {start goal : State} {ps : Profiles}
  {s : Synthesis} {tied : List Nat} {u : Nat} {e : Edge Float} {es : List (Edge Float)}

/-! ### Justification -/

theorem isSynthetic_done : ({ name := Action.done } : Action).isSynthetic = true := by decide

theorem isSynthetic_opportunistic : ({ name := Action.opportunistic } : Action).isSynthetic = true := by decide

/-- A graph to which nothing was added can be searched. -/
theorem Charted.searchable_of_eq {t : Synthesis} (h : Charted limits actuators start goal ps s) (hgraph : t.graph = s.graph)
    (hasked : t.asked = s.asked) : Searchable limits actuators start goal ps [] t where
  start_value := hgraph ▸ h.start_value
  goal_value := hgraph ▸ h.goal_value
  asked q hq := by
    obtain ⟨honest, -, hstate⟩ := h.asked q (hasked ▸ hq)
    exact ⟨honest, hgraph ▸ hstate⟩
  justified u e he := by
    rw [hgraph] at he
    rcases h.edge u e he with ⟨q, hq, c, hc, hu, htarget, hrest⟩ | ⟨⟨hu, state, hstate, hb⟩, rfl⟩
    · exact .proposed ⟨q, hasked ▸ hq, c, hc, hu, hgraph ▸ htarget, hrest⟩
    · exact .better ⟨hu, state, hgraph ▸ hstate, hb⟩

theorem Charted.searchable (h : Charted limits actuators start goal ps s) :
    Searchable limits actuators start goal ps [] (finished start goal ps s) := by
  have hstart := Graph.lt_size_of_value? h.start_value
  have hgoal := Graph.lt_size_of_value? h.goal_value
  rcases finished_cases start goal ps hstart hgoal with heq | ⟨hbetter, -, ⟨cost, hcost, heq⟩ | heq⟩
  · rw [heq]
    exact h.searchable_of_eq rfl rfl
  · rw [heq]
    have hvalue : ∀ {u state}, s.graph.value? u = some state → (s.detoured start cost).graph.value? u = some state := by
      intro u state hu
      rw [value?_detoured, if_neg (Nat.ne_of_lt (Graph.lt_size_of_value? hu)), hu]
    refine ⟨hvalue h.start_value, hvalue h.goal_value,
      fun q hq => ⟨(h.asked q hq).1, hvalue (h.asked q hq).2.2⟩, fun u e he => ?_⟩
    rcases (mem_successors_detoured start cost hstart hgoal).mp he with he | ⟨rfl, rfl⟩ | ⟨rfl, rfl⟩
    · rcases h.edge u e he with ⟨q, hq, c, hc, hu, htarget, hrest⟩ | ⟨⟨hu, state, hstate, hb⟩, rfl⟩
      · exact .proposed ⟨q, hq, c, hc, hu, hvalue htarget, hrest⟩
      · exact .better ⟨hu, state, hvalue hstate, hb⟩
    · refine .shortcut hcost fun f hf => ?_
      rcases (mem_successors_detoured start cost hstart hgoal).mp hf with hf | ⟨hsize, -⟩ | ⟨-, rfl⟩
      · exact absurd (Graph.lt_size_of_mem_successors hf) (Nat.lt_irrefl _)
      · exact absurd hsize (Nat.ne_of_gt hstart)
      · exact ⟨rfl, isSynthetic_done⟩
    · exact .better (better_detoured hgoal hbetter)
  · rw [heq]
    exact h.searchable_of_eq rfl rfl

theorem value?_withOpportunities (limit : Nat) (u : Nat) :
    (s.withOpportunities limit ps).graph.value? u = s.graph.value? u :=
  Graph.value?_foldl_addEdge s.graph _ _ _ _ u

theorem Searchable.withOpportunities (h : Searchable limits actuators start goal ps [] s) (limit : Nat) :
    Searchable limits actuators start goal ps ((s.closest ps).toList.take limit) (s.withOpportunities limit ps) := by
  have hvalue : ∀ u, (s.withOpportunities limit ps).graph.value? u = s.graph.value? u := value?_withOpportunities limit
  refine ⟨(hvalue _).trans h.start_value, (hvalue _).trans h.goal_value,
    fun q hq => ⟨(h.asked q hq).1, (hvalue _).trans (h.asked q hq).2⟩, fun u e he => ?_⟩
  rcases Graph.mem_successors_foldl_addEdge he with he | ⟨hu, rfl⟩
  · cases h.justified u e he with
    | proposed hp =>
      obtain ⟨q, hq, c, hc, hu, htarget, hrest⟩ := hp
      exact .proposed ⟨q, hq, c, hc, hu, (hvalue _).trans htarget, hrest⟩
    | better hb =>
      obtain ⟨hu, state, hstate, hb⟩ := hb
      exact .better ⟨hu, state, (hvalue _).trans hstate, hb⟩
    | shortcut hcost hmiddle =>
      refine .shortcut hcost fun f hf => ?_
      rcases Graph.mem_successors_foldl_addEdge hf with hf | ⟨-, rfl⟩
      · exact hmiddle f hf
      · exact ⟨rfl, isSynthetic_opportunistic⟩
    | opportunity hu => cases hu
  · exact .opportunity hu

theorem Justified.nonneg (h : Justified limits goal ps s tied u e) (hanswers : Affordable limits s.asked) :
    0 ≤ e.utility := by
  cases h with
  | proposed h =>
    obtain ⟨q, hq, c, hc, -, -, hutility, -⟩ := h
    exact hutility ▸ hanswers q hq c hc
  | better =>
    show (0 : Float) ≤ 0.0
    decide
  | shortcut hcost => exact hcost
  | opportunity =>
    show (0 : Float) ≤ 0.0
    decide

/-! ### Ways to the goal -/

/-- A proposed edge makes one step to the state that it leads to. -/
theorem Proposed.led (h : Proposed limits s u e) (hsearch : Searchable limits actuators start goal ps tied s)
    (hanswers : Acceptable limits s.asked) {state : State} (hstate : s.graph.value? u = some state) :
    ∃ next, s.graph.value? e.target = some next ∧
      ∀ actions last, Led limits s.asked next (actions.filter (!·.isSynthetic)) last →
        Led limits s.asked state ((e.action :: actions).filter (!·.isSynthetic)) last := by
  obtain ⟨q, hq, c, hc, rfl, htarget, -, haction⟩ := h
  obtain rfl : state = q.state := Option.some.inj (hstate.symm.trans (hsearch.asked q hq).2)
  refine ⟨c.state, htarget, fun actions last hled => ?_⟩
  rw [haction, List.filter_cons_of_pos (by rw [(hanswers q hq c hc).2]; rfl)]
  exact .step hq hc hled

/-- A way to the goal that does not pass the start leads by proposals to a state where a plan may end. -/
theorem Searchable.led_of_walk (h : Searchable limits actuators start goal ps tied s)
    (hanswers : Acceptable limits s.asked) {state : State} (hw : s.graph.Walk u es goalId)
    (hn : (Graph.visited u es).Nodup) (hstart : startId ∉ Graph.visited u es) (hstate : s.graph.value? u = some state) :
    ∃ last, Led limits s.asked state ((es.map (·.action)).filter (!·.isSynthetic)) last ∧ Ends goal ps s tied last := by
  induction es generalizing u state with
  | nil =>
    cases hw
    exact ⟨state, .refl state, .inr (.inl (Option.some.inj (hstate.symm.trans h.goal_value)))⟩
  | cons e es ih =>
    obtain ⟨he, hes⟩ := hw
    have hn' := (List.nodup_cons.mp hn).2
    cases h.justified u e he with
    | proposed hp =>
      obtain ⟨next, hnext, hstep⟩ := hp.led h hanswers hstate
      obtain ⟨last, hled, hends⟩ := ih hes hn' (fun h => hstart (List.mem_cons_of_mem _ h)) hnext
      exact ⟨last, hstep _ last hled, hends⟩
    -- What the planner ties to the goal is the last edge: the way does not meet the goal twice.
    | better hb =>
      obtain rfl := hes.eq_nil hn'
      obtain ⟨-, state', hstate', hb⟩ := hb
      obtain rfl : state = state' := Option.some.inj (hstate.symm.trans hstate')
      exact ⟨state, .refl state, .inl hb⟩
    | shortcut => exact absurd List.mem_cons_self hstart
    | opportunity hu =>
      obtain rfl := hes.eq_nil hn'
      exact ⟨state, .refl state, .inr (.inr ⟨u, hu, hstate⟩)⟩

/-- A way from the start to the goal leads to a state where a plan may end, or leaves no action. Only here an edge may
    belong to a shortcut. -/
theorem Searchable.led_of_walk_start (h : Searchable limits actuators start goal ps tied s)
    (hanswers : Acceptable limits s.asked) (hw : s.graph.Walk startId es goalId)
    (hn : (Graph.visited startId es).Nodup) :
    ∃ last, Led limits s.asked start ((es.map (·.action)).filter (!·.isSynthetic)) last ∧
      ((es.map (·.action)).filter (!·.isSynthetic) ≠ [] → Ends goal ps s tied last) := by
  have hnone : (es.map (·.action)).filter (!·.isSynthetic) = [] →
      ∃ last, Led limits s.asked start ((es.map (·.action)).filter (!·.isSynthetic)) last ∧
        ((es.map (·.action)).filter (!·.isSynthetic) ≠ [] → Ends goal ps s tied last) := by
    intro hnil
    rw [hnil]
    exact ⟨start, .refl start, fun h => absurd rfl h⟩
  cases es with
  | nil => exact absurd hw start_ne_goal
  | cons e es =>
    obtain ⟨he, hes⟩ := hw
    obtain ⟨hstart, hn'⟩ := List.nodup_cons.mp hn
    cases h.justified startId e he with
    | proposed hp =>
      obtain ⟨next, hnext, hstep⟩ := hp.led h hanswers h.start_value
      obtain ⟨last, hled, hends⟩ := h.led_of_walk hanswers hes hn' hstart hnext
      exact ⟨last, hstep _ last hled, fun _ => hends⟩
    | better hb => exact absurd hb.1 (by decide)
    | shortcut _ hmiddle =>
      refine hnone ?_
      cases es with
      | nil => simp [isSynthetic_done]
      | cons f es =>
        obtain ⟨htarget, hsynthetic⟩ := hmiddle f hes.1
        have hrest : s.graph.Walk goalId es goalId := htarget ▸ hes.2
        obtain rfl := hrest.eq_nil (htarget ▸ (List.nodup_cons.mp hn').2)
        simp [isSynthetic_done, hsynthetic]
    | opportunity hu =>
      obtain rfl := hes.eq_nil hn'
      exact hnone (by simp [isSynthetic_opportunistic])

/-- The states that a chain of proposals passes. -/
theorem Led.states {asked : Array Asked} {state last : State} {actions : List Action}
    (h : Led limits asked state actions last) :
    ∃ states : List State, states.head? = some state ∧ states.getLast? = some last ∧
      states.length = actions.length + 1 ∧
      ∀ (i : Nat) (before after : State) (action : Action), states[i]? = some before → states[i + 1]? = some after →
        actions[i]? = some action →
        ∃ q ∈ asked, ∃ c ∈ q.looked limits, q.state = before ∧ c.state = after ∧ c.action = action := by
  induction h with
  | refl state => exact ⟨[state], rfl, rfl, rfl, by simp⟩
  | @step q c actions last hq hc h ih =>
    obtain ⟨states, hhead, hlast, hlength, hsteps⟩ := ih
    cases states with
    | nil => cases hhead
    | cons next states =>
      refine ⟨q.state :: next :: states, rfl, by rwa [List.getLast?_cons_cons], by simpa using hlength, ?_⟩
      intro i before after action hbefore hafter haction
      cases i with
      | zero =>
        cases hhead
        exact ⟨q, hq, c, hc, by simpa using hbefore, by simpa using hafter, by simpa using haction⟩
      | succ i => exact hsteps i before after action hbefore hafter haction

/-! ### Plans -/

/-- A search comes to an end. It finds no way, or one along a walk to the goal that meets no vertex twice. -/
theorem Searchable.search_cases (h : Searchable limits actuators start goal ps tied s)
    (hanswers : Affordable limits s.asked) :
    s.search ps = .unreachable ∨ ∃ es, s.graph.Walk startId es goalId ∧ (Graph.visited startId es).Nodup ∧
      s.search ps = .found (Graph.visited startId es) (es.map (·.action)) := by
  obtain ⟨r, hwithin, hcases⟩ := s.graph.solve_cases startId goalId .utility (fun state goal => state.distance goal ps)
    fun _ u e he => (h.justified u e he).nonneg hanswers
  have hsearch : s.search ps = r := hwithin _ le_rfl
  rw [hsearch]
  rcases hcases with ⟨rfl, -⟩ | ⟨es, hw, hn, -, -, rfl⟩
  · exact .inl rfl
  · exact .inr ⟨es, hw, hn, rfl⟩

/-- Where the goal is reached, the search finds a way. -/
theorem Searchable.search_found (h : Searchable limits actuators start goal ps tied s)
    (hanswers : Affordable limits s.asked) (hreach : s.graph.Reaches startId goalId) :
    ∃ es, s.graph.Walk startId es goalId ∧ (Graph.visited startId es).Nodup ∧
      s.search ps = .found (Graph.visited startId es) (es.map (·.action)) :=
  s.graph.exists_solve_found startId goalId .utility (fun state goal => state.distance goal ps)
    (fun _ u e he => (h.justified u e he).nonneg hanswers) (Graph.lt_size_of_value? h.start_value)
    (Graph.lt_size_of_value? h.goal_value) hreach

/-- What a search leaves as a plan leads from the start to where a plan may end. -/
theorem Searchable.search_led (h : Searchable limits actuators start goal ps tied s)
    (hanswers : Acceptable limits s.asked) :
    s.search ps ≠ .endless ∧ ∃ last, Led limits s.asked start (Planner.planOf (s.search ps)) last ∧
      (Planner.planOf (s.search ps) ≠ [] → Ends goal ps s tied last) := by
  rcases h.search_cases hanswers.affordable with heq | ⟨es, hw, hn, heq⟩
  · rw [heq]
    exact ⟨nofun, start, .refl start, fun h => absurd rfl h⟩
  · rw [heq]
    exact ⟨nofun, h.led_of_walk_start hanswers hw hn⟩

/-- With the flag the graph is searched as it is, and otherwise with opportunities, if the limits allow any. -/
theorem route_cases (limits : PlannerLimits) (ps : Profiles) (s : Synthesis) :
    s.hasGoal = true ∧ s.route limits ps = s.search ps ∨
    s.hasGoal = false ∧ 0 < limits.opportunistic ∧
      s.route limits ps = (s.withOpportunities limits.opportunistic ps).search ps ∨
    s.route limits ps = .unreachable := by
  unfold route
  split
  · exact .inl ⟨‹_›, rfl⟩
  · rename_i hflag
    split
    · exact .inr (.inl ⟨Bool.eq_false_iff.mpr hflag, ‹_›, rfl⟩)
    · exact .inr (.inr rfl)

/-- The way that a planner takes, with where its plan may end. -/
theorem Searchable.route_led (h : Searchable limits actuators start goal ps [] s) (hanswers : Acceptable limits s.asked) :
    s.route limits ps ≠ .endless ∧ ∃ last, Led limits s.asked start (Planner.planOf (s.route limits ps)) last ∧
      (Planner.planOf (s.route limits ps) ≠ [] → last.isBetter goal ps = true ∨ last = goal ∨
        s.hasGoal = false ∧ 0 < limits.opportunistic ∧
          ∃ u ∈ (s.closest ps).toList.take limits.opportunistic, s.graph.value? u = some last) := by
  rcases route_cases limits ps s with ⟨-, heq⟩ | ⟨hunset, hlimit, heq⟩ | heq <;> rw [heq]
  · obtain ⟨hends, last, hled, hlast⟩ := h.search_led hanswers
    refine ⟨hends, last, hled, fun hne => ?_⟩
    rcases hlast hne with hb | heq | ⟨u, hu, -⟩
    · exact .inl hb
    · exact .inr (.inl heq)
    · cases hu
  · obtain ⟨hends, last, hled, hlast⟩ := (h.withOpportunities limits.opportunistic).search_led hanswers
    refine ⟨hends, last, hled, fun hne => ?_⟩
    rcases hlast hne with hb | heq | ⟨u, hu, hvalue⟩
    · exact .inl hb
    · exact .inr (.inl heq)
    · rw [value?_withOpportunities] at hvalue
      exact .inr (.inr ⟨hunset, hlimit, u, hu, hvalue⟩)
  · exact ⟨nofun, start, .refl start, fun h => absurd rfl h⟩

end
end Intendant.Synthesis

namespace Intendant.Planner
open Synthesis

section
variable {limits : PlannerLimits} {ps : Profiles} {s : Synthesis}

/-- A synthesis has no plan exactly if it was given up. -/
theorem plan?_eq_none_iff : plan? limits ps s = none ↔ s.overflowed = true := by
  unfold plan?
  split <;> simp_all

theorem plan?_eq_some_iff {plan : List Action} :
    plan? limits ps s = some plan ↔ s.overflowed = false ∧ planOf (s.route limits ps) = plan := by
  unfold plan?
  split <;> simp_all

end

/-- There is no plan exactly where the synthesis is given up for a footprint. A plan is made of actions that actuators
    proposed. Between the start and the last state of a chain of states every action was proposed in one state and with
    the next one, when an actuator was asked about the state in this very call. A plan with actions ends at a state better
    than the goal or equal to it, or, where no path to the goal was found and the limits allow it, at one of the states
    that are tied to the goal. -/
theorem createPlan_sound {σ : Type} (limits : PlannerLimits) (actuators : List (Actuator σ)) (start goal : State)
    (ps : Profiles) (w : σ) (hanswers : Acceptable limits (build limits actuators start goal ps w).1.asked) :
    let s := (build limits actuators start goal ps w).1
    s.route limits ps ≠ .endless ∧ ((createPlan limits actuators start goal ps w).1 = none ↔ s.overflowed = true) ∧
    ∀ plan, (createPlan limits actuators start goal ps w).1 = some plan →
    (∀ a ∈ plan, a.isSynthetic = false) ∧
    ∃ states : List State, states.head? = some start ∧ states.length = plan.length + 1 ∧
      (∀ (i : Nat) (before after : State) (action : Action), states[i]? = some before → states[i + 1]? = some after →
        plan[i]? = some action → ∃ q ∈ s.asked, ∃ c ∈ q.looked limits, Honest actuators goal ps q ∧ q.state = before ∧
          c.state = after ∧ c.action = action) ∧
      (plan ≠ [] → ∃ last, states.getLast? = some last ∧ (last.isBetter goal ps = true ∨ last = goal ∨
        s.hasGoal = false ∧ 0 < limits.opportunistic ∧
          ∃ u ∈ (s.closest ps).toList.take limits.opportunistic, s.graph.value? u = some last)) := by
  have hgrown : Grown limits actuators start goal ps (explored limits actuators start goal ps w).1 := explored_grown
  have hsearch : Searchable limits actuators start goal ps [] (build limits actuators start goal ps w).1 :=
    hgrown.charted.searchable
  obtain ⟨hends, last, hled, hlast⟩ := hsearch.route_led hanswers
  refine ⟨hends, plan?_eq_none_iff, fun plan hplan => ?_⟩
  obtain ⟨-, rfl⟩ := plan?_eq_some_iff.mp hplan
  obtain ⟨states, hhead, hgetLast, hlength, hsteps⟩ := hled.states
  refine ⟨fun a ha => ?_, states, hhead, hlength, ?_, fun hne => ⟨last, hgetLast, hlast hne⟩⟩
  · simpa using (List.mem_filter.mp ha).2
  · intro i before after action hbefore hafter haction
    obtain ⟨q, hq, c, hc, hrest⟩ := hsteps i before after action hbefore hafter haction
    exact ⟨q, hq, c, hc, (hsearch.asked q hq).1, hrest⟩

/-- A state beyond the goal. -/
def beyond : State := { intent := { key := "b", objectives := KeyMap.empty.insert "x" 6.0 } }

/-- An actuator that proposes the state beyond the goal. -/
def climber : Actuator Unit where
  name := "climber"
  group := "test"
  nextState _ _ _ w := (.ok [⟨beyond, 1.0, { name := "climb" }⟩], w)
  perform _ _ w := (.ok (), w)
  effect _ _ w := (.ok (), w)

/-- The only question that there is room for. -/
def climbed : Asked := ⟨0, startId, here, .ok [⟨beyond, 1.0, { name := "climb" }⟩]⟩

theorem build_climber :
    (build ⟨3, 5, 0⟩ [climber] here there .empty ()).1 =
      answered ⟨3, 5, 0⟩ there .empty (initial here there) climbed := by
  have hexplored : explored ⟨3, 5, 0⟩ [climber] here there .empty () =
      (answered ⟨3, 5, 0⟩ there .empty (initial here there) climbed, ()) := by
    rw [explored, explore, dif_pos (by decide)]
    change explore _ there .empty [climber] (following startId)
      (answered ⟨3, 5, 0⟩ there .empty (initial here there) climbed) () = _
    rw [explore, dif_neg (by decide)]
  rw [build, hexplored]
  change finished here there .empty (answered ⟨3, 5, 0⟩ there .empty (initial here there) climbed) = _
  rw [finished, if_neg (by decide)]

theorem createPlan_sound_climber :
    Acceptable ⟨3, 5, 0⟩ (build ⟨3, 5, 0⟩ [climber] here there .empty ()).1.asked ∧
    (createPlan ⟨3, 5, 0⟩ [climber] here there .empty ()).1 = some [{ name := "climb" }] ∧
    ∃ states : List State, states.head? = some here ∧ states.length = 2 ∧
      ∃ last, states.getLast? = some last ∧ (last.isBetter there .empty = true ∨ last = there) := by
  have hanswers : Acceptable ⟨3, 5, 0⟩ (build ⟨3, 5, 0⟩ [climber] here there .empty ()).1.asked := by
    intro q hq c hc
    have hasked : (build ⟨3, 5, 0⟩ [climber] here there .empty ()).1.asked = #[climbed] := by
      rw [build_climber]
      rfl
    obtain rfl : q = climbed := by
      rw [hasked] at hq
      simpa using hq
    obtain rfl : c = ⟨beyond, 1.0, { name := "climb" }⟩ := by simpa [climbed, Asked.looked] using hc
    decide
  have hplan : (createPlan ⟨3, 5, 0⟩ [climber] here there .empty ()).1 = some [{ name := "climb" }] := by
    change plan? ⟨3, 5, 0⟩ .empty (build ⟨3, 5, 0⟩ [climber] here there .empty ()).1 = _
    rw [build_climber]
    decide +kernel
  obtain ⟨-, -, hsound⟩ := createPlan_sound ⟨3, 5, 0⟩ [climber] here there .empty () hanswers
  obtain ⟨-, states, hhead, hlength, -, hlast⟩ := hsound _ hplan
  rcases hlast (List.cons_ne_nil _ _) with ⟨last, hgetLast, hbetter | hgoal | ⟨-, hlimit, -⟩⟩
  · exact ⟨hanswers, hplan, states, hhead, hlength, last, hgetLast, .inl hbetter⟩
  · exact ⟨hanswers, hplan, states, hhead, hlength, last, hgetLast, .inr hgoal⟩
  · cases hlimit

end Intendant.Planner
