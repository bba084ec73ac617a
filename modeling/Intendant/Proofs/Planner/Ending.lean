import Intendant.Proofs.Graph.Termination
import Intendant.Proofs.Planner.Plan

/-! # When planning ends

The rounds of a search always come to an end. Planning ends as well if no candidate that is looked at has a negative
utility, and that is needed: whatever negative utility may occur, an actuator that proposes the state it is asked
about with that utility gives the start a loop, and then every way back to the start goes round (`solve_drifting`). -/

namespace Intendant.Synthesis
open Search
open Planner (beyond)

section
variable {σ : Type} {limits : PlannerLimits} {actuators : List (Actuator σ)} {start goal : State} {ps : Profiles}
  {s : Synthesis} {tied : List Nat}

theorem Searchable.search_ends (h : Searchable limits actuators start goal ps tied s)
    (hanswers : Affordable limits s.asked) : s.search ps ≠ .endless := by
  rcases h.search_cases hanswers with heq | ⟨es, -, -, heq⟩ <;> rw [heq] <;> nofun

theorem Searchable.route_ends (h : Searchable limits actuators start goal ps [] s)
    (hanswers : Affordable limits s.asked) : s.route limits ps ≠ .endless := by
  rcases route_cases limits ps s with ⟨-, heq⟩ | ⟨-, -, heq⟩ | heq <;> rw [heq]
  · exact h.search_ends hanswers
  · exact (h.withOpportunities limits.opportunistic).search_ends hanswers
  · nofun

end

/-- An actuator that proposes the state beyond the goal, and to stay at the start. -/
def drifter (exit loop : Float) : Actuator Unit where
  name := "drifter"
  group := "test"
  nextState _ _ _ w := (.ok [⟨beyond, exit, { name := "leap" }⟩, ⟨here, loop, { name := "wait" }⟩], w)
  perform _ _ w := (.ok (), w)
  effect _ _ w := (.ok (), w)

/-- The only question that there is room for. -/
def drifted (exit loop : Float) : Asked :=
  ⟨0, startId, here, .ok [⟨beyond, exit, { name := "leap" }⟩, ⟨here, loop, { name := "wait" }⟩]⟩

/-- The way over the state beyond the goal, and the loop at the start. -/
def drifting (exit loop : Float) : Synthesis where
  graph := (((((Graph.empty.addVertex here).addVertex there).addVertex beyond).addEdge startId 2 exit
    { name := "leap" }).addEdge 2 goalId 0.0 { name := Action.done }).addEdge startId startId loop { name := "wait" }
  hasGoal := true
  asked := #[drifted exit loop]

variable (exit loop : Float)

theorem build_drifter : (build ⟨3, 5, 0⟩ [drifter exit loop] here there .empty ()).1 = drifting exit loop := by
  have hexplored : explored ⟨3, 5, 0⟩ [drifter exit loop] here there .empty () = (drifting exit loop, ()) := by
    rw [explored, explore, dif_pos (by decide)]
    change explore _ there .empty [drifter exit loop] (following startId) (drifting exit loop) () = _
    have hfull : (drifting exit loop).graph.size = 3 := rfl
    rw [explore, hfull, dif_neg (by decide)]
  rw [build, hexplored]
  have hworse : here.isBetter there .empty = false := by decide
  change finished here there .empty (drifting exit loop) = drifting exit loop
  rw [finished, hworse]
  rfl

theorem solve_drifting (hloop : loop < 0) (ps : Profiles) : (drifting exit loop).search ps = .endless := by
  have hedges : ∀ {u : Nat} {e : Edge Float}, e ∈ (drifting exit loop).graph.successors u ↔
      u = 0 ∧ (e = ⟨2, exit, { name := "leap" }⟩ ∨ e = ⟨0, loop, { name := "wait" }⟩) ∨
        u = 2 ∧ e = ⟨1, 0.0, { name := Action.done }⟩ := by
    intro u e
    simp [drifting, Graph.mem_successors_addEdge, startId, goalId]
    tauto
  have hreach : (drifting exit loop).graph.Reaches startId goalId :=
    ((Graph.Reaches.refl startId).step (hedges.mpr (.inl ⟨rfl, .inl rfl⟩))).step (hedges.mpr (.inr ⟨rfl, rfl⟩))
  have hgoal : goalId < (drifting exit loop).graph.size := Nat.lt_add_of_pos_right (Nat.succ_pos 1)
  exact Graph.solve_endless_of_loop start_ne_goal hgoal hreach (hedges.mpr (.inl ⟨rfl, .inr rfl⟩)) rfl hloop

theorem route_drifter (hloop : loop < 0) :
    (build ⟨3, 5, 0⟩ [drifter exit loop] here there .empty ()).1.route ⟨3, 5, 0⟩ .empty = .endless := by
  have hsearch : (drifting exit loop).route ⟨3, 5, 0⟩ .empty = (drifting exit loop).search .empty := if_pos rfl
  rw [build_drifter, hsearch]
  exact solve_drifting exit loop hloop .empty

theorem looked_drifter {P : Float → Prop} (hexit : P exit) (hloop : P loop) :
    ∀ q ∈ (build ⟨3, 5, 0⟩ [drifter exit loop] here there .empty ()).1.asked, ∀ c ∈ q.looked ⟨3, 5, 0⟩, P c.utility := by
  intro q hq c hc
  have hasked : (build ⟨3, 5, 0⟩ [drifter exit loop] here there .empty ()).1.asked = #[drifted exit loop] := by
    rw [build_drifter]
    rfl
  rw [hasked] at hq
  obtain rfl : q = drifted exit loop := by simpa using hq
  have hc' : c = ⟨beyond, exit, { name := "leap" }⟩ ∨ c = ⟨here, loop, { name := "wait" }⟩ := by
    simpa [drifted, Asked.looked] using hc
  rcases hc' with rfl | rfl
  · exact hexit
  · exact hloop

end Intendant.Synthesis

namespace Intendant.Planner
open Search Synthesis

/-- A search in doubles always comes to the end of its rounds, whatever the edges cost; it does not end exactly where
    the last round takes the goal and no bound is long enough for the way back. Planning ends for all answers with
    utilities from a set exactly if the set has no negative double. -/
theorem createPlan_ends_iff (utilities : Set Float) :
    (∀ (g : Graph State Float) (start goal : Nat) (mode : CostMode) (estimate : State → State → Float) (target : State),
      start < g.size → g.value? goal = some target →
      ∃ n q, n < g.enoughRounds ∧ Rounds g goal mode (estimate · target) n (.initial g.size start) q ∧
        round? g goal mode (estimate · target) q = none ∧
        (g.solve start goal mode estimate = .endless ↔
          (∃ x, q.openSet.pop? = some x) ∧ ∀ bound, path? q.arrivals bound goal = none)) ∧
    ((∀ (σ : Type) (limits : PlannerLimits) (actuators : List (Actuator σ)) (start goal : State) (ps : Profiles) (w : σ),
        (∀ q ∈ (build limits actuators start goal ps w).1.asked, ∀ c ∈ q.looked limits,
          c.utility.isFinite = true ∧ c.utility ∈ utilities) →
        (build limits actuators start goal ps w).1.route limits ps ≠ .endless) ↔
      ∀ u ∈ utilities, u.isFinite = true → 0 ≤ u) := by
  refine ⟨fun g start goal mode estimate target hstart htarget => ?_, fun hends u hu hfinite => ?_, ?_⟩
  · obtain ⟨n, q, hn, hrounds, hend, -, hsolve⟩ := Graph.exists_last_progress g mode estimate hstart htarget
    exact ⟨n, q, hn, hrounds, hend, hsolve ▸ Progress.outcome_eq_endless_iff⟩
  · have hcomparable : Double.Comparable u := Double.comparable_of_isFinite hfinite
    -- With a negative utility in the set, a loop at the start keeps the search from ending.
    refine (Double.not_lt_iff hcomparable (Double.comparable_of_nonneg (by decide))).mp fun hneg => ?_
    have hanswers := looked_drifter (P := fun u => u.isFinite = true ∧ u ∈ utilities) u u ⟨hfinite, hu⟩ ⟨hfinite, hu⟩
    exact hends Unit ⟨3, 5, 0⟩ [drifter u u] here there .empty () hanswers (route_drifter u u hneg)
  · intro hutilities σ limits actuators start goal ps w hanswers
    have hgrown : Grown limits actuators start goal ps (explored limits actuators start goal ps w).1 := explored_grown
    have hsearch : Searchable limits actuators start goal ps [] (build limits actuators start goal ps w).1 :=
      hgrown.charted.searchable
    exact hsearch.route_ends fun q hq c hc => hutilities _ (hanswers q hq c hc).2 (hanswers q hq c hc).1

/-- A candidate that leads from the start to itself at a utility of minus one keeps planning from ending: the rounds of
    the search end at a progress from which no way back ends. -/
theorem createPlan_endless_drifter :
    let s := (build ⟨3, 5, 0⟩ [drifter 1e30 (-1.0)] here there .empty ()).1
    (∀ q ∈ s.asked, ∀ c ∈ q.looked ⟨3, 5, 0⟩, c.utility.isFinite = true) ∧ s.route ⟨3, 5, 0⟩ .empty = .endless ∧
      ∃ n q, Rounds s.graph goalId .utility (fun state => state.distance there .empty) n
          (.initial s.graph.size startId) q ∧
        round? s.graph goalId .utility (fun state => state.distance there .empty) q = none ∧
        ∀ bound, path? q.arrivals bound goalId = none := by
  intro s
  have hroute : s.route ⟨3, 5, 0⟩ .empty = .endless := route_drifter 1e30 (-1.0) (by decide)
  have hs : s = drifting 1e30 (-1.0) := build_drifter 1e30 (-1.0)
  refine ⟨looked_drifter (P := fun u => u.isFinite = true) 1e30 (-1.0) (by decide +kernel) (by decide +kernel), hroute, ?_⟩
  have hstart : startId < s.graph.size := by
    rw [hs]
    exact Nat.succ_pos 2
  have hgoal : s.graph.value? goalId = some there := by
    rw [hs]
    rfl
  have hsearch : s.route ⟨3, 5, 0⟩ .empty = s.search .empty := by
    rw [hs]
    exact if_pos rfl
  obtain ⟨n, q, -, hrounds, hend, -, hsolve⟩ :=
    Graph.exists_last_progress s.graph .utility (fun state goal => state.distance goal .empty) hstart hgoal
  have houtcome : q.outcome goalId = .endless := hsolve.symm.trans (hsearch.symm.trans hroute)
  exact ⟨n, q, hrounds, hend, (Progress.outcome_eq_endless_iff.mp houtcome).2⟩

end Intendant.Planner
