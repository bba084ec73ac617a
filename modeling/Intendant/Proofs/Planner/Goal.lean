import Intendant.Proofs.Planner.Edges
import Intendant.Proofs.Planner.Schedule
import Intendant.Proofs.Planner.Shortcut

/-! # Whether the goal is reached

The flag of a built graph is set exactly if some vertex behind the goal is better than it, or if the synthesis was given
up for a footprint. That a path to the goal exists follows, but not the other way round: a candidate with the very state
of the goal leads there as well. -/

namespace Intendant.Synthesis
variable {σ : Type}

variable {limits : PlannerLimits} {actuators : List (Actuator σ)} {start goal : State} {ps : Profiles} {s : Synthesis}

/-- A candidate with the state of the goal gives an edge into the goal, but does not set the flag. -/
theorem Grown.goal_edge (h : Grown limits actuators start goal ps s) {q : Asked} (hq : q ∈ s.asked) {c : Candidate}
    (hc : c ∈ q.looked limits) (hgoal : c.state = goal) : ∃ e ∈ s.graph.successors q.vertex, e.target = goalId := by
  have hproposed : c ∈ s.proposals limits q.vertex := mem_proposals.mpr ⟨q, hq, rfl, hc⟩
  have hcarrying := carrying?_of_newest? (hgoal ▸ h.charted.newest?_goal)
  refine ⟨⟨goalId, c.utility, c.action⟩, ?_, rfl⟩
  rw [h.successors_eq]
  exact List.mem_append_right _ (List.mem_filterMap.mpr ⟨c, hproposed, hcarrying⟩)

/-- The goal is reached if some vertex is better than it, or if a candidate with its state was looked at. -/
theorem Grown.reaches_goal_iff (h : Grown limits actuators start goal ps s) :
    s.graph.Reaches startId goalId ↔
      (∃ u, Better goal ps s u) ∨ ∃ q ∈ s.asked, ∃ c ∈ q.looked limits, c.state = goal := by
  have hs := h.charted
  constructor
  · intro hreach
    obtain ⟨u, e, he, htarget⟩ := hreach.last_edge start_ne_goal
    rcases hs.edge u e he with ⟨q, hq, c, hc, -, hvalue, -, -⟩ | ⟨hbetter, -⟩
    · rw [htarget, hs.goal_value] at hvalue
      exact .inr ⟨q, hq, c, hc, (Option.some.inj hvalue).symm⟩
    · exact .inl ⟨u, hbetter⟩
  · rintro (⟨u, hu, state, hvalue, hbetter⟩ | ⟨q, hq, c, hc, hgoal⟩)
    · have hedge := hs.arrives u ⟨hu, state, hvalue, hbetter⟩
      exact (hs.reached u (Graph.lt_size_of_value? hvalue) (Nat.ne_of_gt hu)).step hedge
    · obtain ⟨e, he, htarget⟩ := h.goal_edge hq hc hgoal
      obtain ⟨-, vertex, state⟩ := hs.asked q hq
      exact htarget ▸ (hs.reached q.vertex (Graph.lt_size_of_value? state) vertex).step he

/-- Without a shortcut the graph is as it has grown, and with one both the flag and the path are there. So they are where
    the synthesis is given up. -/
theorem Grown.finished_goal (h : Grown limits actuators start goal ps s) :
    ((finished start goal ps s).hasGoal = true ↔
      (∃ u, Better goal ps (finished start goal ps s) u) ∨ (finished start goal ps s).overflowed = true) ∧
    ((finished start goal ps s).graph.Reaches startId goalId ↔
      ((∃ u, Better goal ps (finished start goal ps s) u) ∨ (finished start goal ps s).overflowed = true) ∨
        ∃ q ∈ (finished start goal ps s).asked, ∃ c ∈ q.looked limits, c.state = goal) := by
  have hs := h.charted
  have hstart := Graph.lt_size_of_value? hs.start_value
  have hgoal := Graph.lt_size_of_value? hs.goal_value
  rcases finished_cases start goal ps hstart hgoal with heq | ⟨hbetter, hreach, ⟨cost, -, heq⟩ | heq⟩
  · have hgoing : ¬s.overflowed = true := Bool.eq_false_iff.mp h.overflowed
    rw [heq, or_iff_left hgoing]
    exact ⟨hs.hasGoal, h.reaches_goal_iff⟩
  · have hmiddle : ∃ u, Better goal ps (s.detoured start cost) u := ⟨_, better_detoured hgoal hbetter⟩
    have hfirst := (Graph.Reaches.refl startId).step
      ((mem_successors_detoured start cost hstart hgoal).mpr (.inr (.inl ⟨rfl, rfl⟩)))
    have hsecond := hfirst.step
      ((mem_successors_detoured start cost hstart hgoal).mpr (.inr (.inr ⟨rfl, rfl⟩)))
    rw [heq]
    exact ⟨iff_of_true rfl (.inl hmiddle), iff_of_true hsecond (.inl (.inl hmiddle))⟩
  · rw [heq]
    exact ⟨iff_of_true rfl (.inr rfl), iff_of_true hreach (.inl (.inr rfl))⟩

/-- The flag of a built graph is set exactly if some vertex other than the ends is better than the goal, or if the
    synthesis was given up for a footprint. If it is set, then the goal is reached; it misses a goal that is reached
    exactly if no vertex is better, nothing was given up and a candidate with the state of the goal was looked at. -/
theorem hasGoal_exact_iff (limits : PlannerLimits) (actuators : List (Actuator σ)) (start goal : State) (ps : Profiles)
    (w : σ) :
    ((build limits actuators start goal ps w).1.hasGoal = true ↔
      (∃ u, Better goal ps (build limits actuators start goal ps w).1 u) ∨
        (build limits actuators start goal ps w).1.overflowed = true) ∧
    ((build limits actuators start goal ps w).1.hasGoal = true →
      (build limits actuators start goal ps w).1.graph.Reaches startId goalId) ∧
    (((build limits actuators start goal ps w).1.hasGoal = true ↔
        (build limits actuators start goal ps w).1.graph.Reaches startId goalId) ↔
      (∃ u, Better goal ps (build limits actuators start goal ps w).1 u) ∨
        (build limits actuators start goal ps w).1.overflowed = true ∨
        ∀ q ∈ (build limits actuators start goal ps w).1.asked, ∀ c ∈ q.looked limits, c.state ≠ goal) := by
  have hbuild : (build limits actuators start goal ps w).1 =
      finished start goal ps (explored limits actuators start goal ps w).1 := rfl
  have hgrown : Grown limits actuators start goal ps (explored limits actuators start goal ps w).1 := explored_grown
  obtain ⟨hflag, hreach⟩ := hgrown.finished_goal
  rw [hbuild]
  refine ⟨hflag, fun h => hreach.mpr (.inl (hflag.mp h)), ?_⟩
  rw [hflag, hreach, ← or_assoc]
  constructor
  · intro hiff
    by_cases hset : (∃ u, Better goal ps (finished start goal ps (explored limits actuators start goal ps w).1) u) ∨
        (finished start goal ps (explored limits actuators start goal ps w).1).overflowed = true
    · exact .inl hset
    · exact .inr fun q hq c hc heq => hset (hiff.mpr (.inr ⟨q, hq, c, hc, heq⟩))
  · rintro (hset | hnone)
    · exact iff_of_true hset (.inl hset)
    · exact ⟨.inl, fun h => h.resolve_right fun ⟨q, hq, c, hc, heq⟩ => hnone q hq c hc heq⟩

/-- An actuator that proposes the goal itself. -/
def guide : Actuator Unit where
  name := "guide"
  group := "test"
  nextState _ goal _ w := (.ok [⟨goal, 1.0, { name := "go" }⟩], w)
  perform _ _ w := (.ok (), w)
  effect _ _ w := (.ok (), w)

/-- A state short of the one to be reached. -/
def here : State := { intent := { key := "s", objectives := KeyMap.empty.insert "x" 1.0 } }

/-- The state to be reached. -/
def there : State := { intent := { key := "g", objectives := KeyMap.empty.insert "x" 5.0 } }

/-- The start and the goal with the proposed edge between them. -/
def guided : Synthesis where
  graph := ((Graph.empty.addVertex here).addVertex there).addEdge startId goalId 1.0 { name := "go" }
  hasGoal := false
  asked := #[⟨0, startId, here, .ok [⟨there, 1.0, { name := "go" }⟩]⟩]

theorem build_guide : (build ⟨10, 5, 0⟩ [guide] here there .empty ()).1 = guided := by
  have hexplored : explored ⟨10, 5, 0⟩ [guide] here there .empty () = (guided, ()) := by
    rw [explored, explore, dif_pos (by decide)]
    change explore _ there .empty [guide] (following startId) guided () = (guided, ())
    rw [explore, dif_neg (by decide)]
  rw [build, hexplored]
  change finished here there .empty guided = guided
  rw [finished, if_neg (by decide)]

/-- A goal that is proposed as it stands is reached, and the flag is not set. -/
theorem hasGoal_misses_proposed_goal :
    ¬((build ⟨10, 5, 0⟩ [guide] here there .empty ()).1.hasGoal = true ↔
      (build ⟨10, 5, 0⟩ [guide] here there .empty ()).1.graph.Reaches startId goalId) := by
  rw [build_guide]
  intro hiff
  have hedge : ⟨goalId, 1.0, { name := "go" }⟩ ∈ guided.graph.successors startId := by
    simp [guided, Graph.mem_successors_addEdge, startId, goalId]
  exact Bool.false_ne_true (hiff.mpr ((Graph.Reaches.refl startId).step hedge))

end Intendant.Synthesis
