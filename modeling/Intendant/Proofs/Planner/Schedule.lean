import Intendant.Proofs.Planner.Exploration

/-! # The order of the questions

The vertices have their rounds by their ids, and in a round the actuators are asked one after the other. So the number
of the questions so far says which one is next (`Scheduled`). An exploration keeps this order and leaves a question out
only where the graph is full (`explored_scheduled`). -/

namespace Intendant.Synthesis

/-- The vertex that is taken up in a round: the start, and then the vertices behind the goal. -/
def vertexOfRound (round : Nat) : Nat := if round = 0 then startId else goalId + round

theorem vertexOfRound_ne_goal (round : Nat) : vertexOfRound round ≠ goalId := by
  unfold vertexOfRound
  split
  · exact start_ne_goal
  · omega

theorem following_vertexOfRound (round : Nat) : following (vertexOfRound round) = vertexOfRound (round + 1) := by
  cases round with
  | zero => rfl
  | succ round =>
    have hne : goalId + (round + 1) ≠ startId := Nat.succ_ne_zero _
    simp [following, vertexOfRound, hne]
    omega

theorem vertexOfRound_lt {r r' : Nat} (h : r < r') : vertexOfRound r < vertexOfRound r' := by
  unfold vertexOfRound
  rw [if_neg (Nat.ne_zero_of_lt h)]
  split
  · exact Nat.lt_add_right _ Nat.zero_lt_one
  · exact Nat.add_lt_add_left h _

/-- Every vertex but the goal has its round. -/
theorem exists_vertexOfRound {u : Nat} (h : u ≠ goalId) : ∃ round, vertexOfRound round = u := by
  unfold vertexOfRound goalId startId at *
  rcases Nat.eq_zero_or_pos u with rfl | hpos
  · exact ⟨0, rfl⟩
  · exact ⟨u - 1, by rw [if_neg (by omega)]; omega⟩

section
variable {σ : Type} (limits : PlannerLimits) (actuators : List (Actuator σ)) (start goal : State) (ps : Profiles)

/-- Growth by questions in their order: in every round all actuators are asked about its vertex, one after the
    other. -/
inductive Scheduled : Synthesis → Prop
  | initial : Scheduled (.initial start goal)
  | answer {s : Synthesis} {q : Asked} (h : Scheduled s) (honest : Honest actuators goal ps q)
      (actuator : q.actuator = s.asked.size % actuators.length)
      (vertex : q.vertex = vertexOfRound (s.asked.size / actuators.length))
      (state : s.graph.value? q.vertex = some q.state) (room : s.graph.size < limits.states) :
      Scheduled (s.answered limits goal ps q)

end

section
variable {σ : Type} {limits : PlannerLimits} {actuators : List (Actuator σ)} {start goal : State} {ps : Profiles}
  {s : Synthesis} {w : σ}

theorem Scheduled.grown (h : Scheduled limits actuators start goal ps s) : Grown limits actuators start goal ps s := by
  induction h with
  | initial => exact .initial
  | @answer s q _ honest _ vertex state room ih =>
    exact ih.answer honest (vertex ▸ vertexOfRound_ne_goal _) state room

/-- The number of the questions so far says how many actuators were asked about the vertex of a round. -/
theorem Scheduled.actuators_asked (h : Scheduled limits actuators start goal ps s) (round : Nat) :
    (s.asked.toList.filter (·.vertex = vertexOfRound round)).map (·.actuator) =
      List.range (min actuators.length (s.asked.size - actuators.length * round)) := by
  induction h with
  | initial => simp [Synthesis.initial]
  | @answer s q _ honest actuator vertex _ _ ih =>
    obtain ⟨a, -, ha, -⟩ := honest
    have hpos : 0 < actuators.length := Nat.zero_lt_of_lt (List.getElem?_eq_some_iff.mp ha).1
    have hdivmod := Nat.div_add_mod s.asked.size actuators.length
    have hmod := Nat.mod_lt s.asked.size hpos
    rw [asked_answered, Array.toList_push, List.filter_append, List.map_append, ih, Array.size_push]
    -- The new question counts only if the round in progress is the one that is looked at.
    rcases Nat.lt_trichotomy (s.asked.size / actuators.length) round with hlt | rfl | hgt
    · have hne : q.vertex ≠ vertexOfRound round := vertex ▸ Nat.ne_of_lt (vertexOfRound_lt hlt)
      have hbefore : s.asked.size + 1 ≤ actuators.length * round := by
        rw [Nat.mul_comm]
        exact (Nat.div_lt_iff_lt_mul hpos).mp hlt
      simp [hne, Nat.sub_eq_zero_of_le hbefore, Nat.sub_eq_zero_of_le (Nat.le_of_succ_le hbefore)]
    · have hrest : s.asked.size - actuators.length * (s.asked.size / actuators.length) = q.actuator := by omega
      have hnext : s.asked.size + 1 - actuators.length * (s.asked.size / actuators.length) = q.actuator + 1 := by omega
      rw [hrest, hnext, Nat.min_eq_right (by omega), Nat.min_eq_right (by omega), List.range_succ]
      simp [vertex]
    · have hne : q.vertex ≠ vertexOfRound round := vertex ▸ Nat.ne_of_gt (vertexOfRound_lt hgt)
      have hafter : actuators.length * (round + 1) ≤ s.asked.size := by
        rw [Nat.mul_comm]
        exact (Nat.le_div_iff_mul_le hpos).mp hgt
      rw [Nat.mul_succ] at hafter
      rw [Nat.min_eq_left (by omega), Nat.min_eq_left (by omega)]
      simp [hne]

theorem Scheduled.asked_eq (h : Scheduled limits actuators start goal ps s) :
    (s.asked.toList.map fun q => (q.vertex, q.actuator)) =
      (List.range s.asked.size).map fun i => (vertexOfRound (i / actuators.length), i % actuators.length) := by
  induction h with
  | initial => rfl
  | @answer s q _ _ actuator vertex _ _ ih =>
    rw [asked_answered, Array.toList_push, List.map_append, ih, Array.size_push, List.range_succ, List.map_append,
      List.map_singleton, List.map_singleton, actuator, vertex]

/-- No question goes back to an earlier vertex. -/
theorem Scheduled.vertex_le (h : Scheduled limits actuators start goal ps s) {r : Asked} (hr : r ∈ s.asked) :
    r.vertex ≤ vertexOfRound (s.asked.size / actuators.length) := by
  have hmem : (r.vertex, r.actuator) ∈ s.asked.toList.map fun q => (q.vertex, q.actuator) :=
    List.mem_map.mpr ⟨r, Array.mem_toList_iff.mpr hr, rfl⟩
  rw [h.asked_eq] at hmem
  obtain ⟨i, hi, heq⟩ := List.mem_map.mp hmem
  rw [← (Prod.mk.inj heq).1]
  rcases Nat.lt_or_eq_of_le (Nat.div_le_div_right (Nat.le_of_lt (List.mem_range.mp hi)) (c := actuators.length)) with
    hlt | heq
  · exact Nat.le_of_lt (vertexOfRound_lt hlt)
  · exact Nat.le_of_eq (congrArg vertexOfRound heq)

/-- What the start has, and noting the next question and taking in one of its candidates preserve, holds after any
    growth in order. The question that is answered is about the latest vertex. -/
theorem Scheduled.induction {P : Synthesis → Prop} (hinitial : P (.initial start goal))
    (hask : ∀ s q, P s → Honest actuators goal ps q → q.vertex ≠ goalId → s.graph.value? q.vertex = some q.state →
      P { s with asked := s.asked.push q })
    (htake : ∀ s q c, P s → q ∈ s.asked → (∀ r ∈ s.asked, r.vertex ≤ q.vertex) → c ∈ q.looked limits →
      P (takeIn limits goal ps q.vertex s c))
    (h : Scheduled limits actuators start goal ps s) : P s := by
  induction h with
  | initial => exact hinitial
  | @answer s q hs honest _ vertex state _ ih =>
    have hlatest : ∀ r ∈ s.asked.push q, r.vertex ≤ q.vertex := by
      intro r hr
      rcases Array.mem_push.mp hr with hr | rfl
      · exact vertex ▸ hs.vertex_le hr
      · exact Nat.le_refl _
    refine (List.foldlRecOn (motive := fun t => P t ∧ t.asked = s.asked.push q) (q.looked limits) _
      ⟨hask s q ih honest (vertex ▸ vertexOfRound_ne_goal _) state, rfl⟩ ?_).1
    rintro t ⟨ht, hasked⟩ c hc
    refine ⟨htake t q c ht ?_ ?_ hc, asked_takeIn.trans hasked⟩
    · exact hasked ▸ Array.mem_push_self
    · exact hasked ▸ hlatest

theorem size_le_visit {v : Nat} {state : State} (index : Nat) (rest : List (Actuator σ)) :
    s.graph.size ≤ (visit limits goal ps v state index rest s w).1.graph.size := by
  induction rest generalizing index s w with
  | nil => exact Nat.le_refl _
  | cons a rest ih =>
    unfold visit
    generalize a.nextState state goal ps w = answer
    obtain ⟨answer, w'⟩ := answer
    have hanswered : s.graph.size ≤ (s.answered limits goal ps ⟨index, v, state, answer⟩).graph.size :=
      size_le_answered _
    cases answer with
    | error error =>
      rw [answered_error rfl] at hanswered
      exact Nat.le_trans hanswered (ih (index + 1))
    | ok candidates =>
      rw [answered_ok rfl] at hanswered
      dsimp only
      split
      · exact hanswered
      · exact Nat.le_trans hanswered (ih (index + 1))

/-- A visit asks the remaining actuators of its round, and leaves one out only where the graph is full. -/
theorem visit_scheduled {state : State} (round index : Nat) (rest : List (Actuator σ))
    (hrest : rest = actuators.drop index) (hindex : index ≤ actuators.length)
    (h : Scheduled limits actuators start goal ps s) (hasked : s.asked.size = actuators.length * round + index)
    (hstate : s.graph.value? (vertexOfRound round) = some state) (hroom : s.graph.size < limits.states) :
    Scheduled limits actuators start goal ps (visit limits goal ps (vertexOfRound round) state index rest s w).1 ∧
      ((visit limits goal ps (vertexOfRound round) state index rest s w).1.graph.size < limits.states →
        (visit limits goal ps (vertexOfRound round) state index rest s w).1.asked.size =
          actuators.length * (round + 1)) := by
  -- Over the actuators that are left; the index says how many questions of the round were asked already.
  induction rest generalizing index s w with
  | nil =>
    have hlength := List.drop_eq_nil_iff.mp hrest.symm
    refine ⟨h, fun _ => ?_⟩
    rw [visit, hasked, Nat.mul_succ]
    omega
  | cons a rest ih =>
    have ha : actuators[index]? = some a := by
      rw [← List.head?_drop, ← hrest, List.head?_cons]
    have hlt : index < actuators.length := (List.getElem?_eq_some_iff.mp ha).1
    have hnext : rest = actuators.drop (index + 1) := by
      rw [← List.tail_drop, ← hrest, List.tail_cons]
    unfold visit
    generalize hanswer : a.nextState state goal ps w = answer
    obtain ⟨answer, w'⟩ := answer
    have hscheduled := Scheduled.answer (q := ⟨index, vertexOfRound round, state, answer⟩) h
      ⟨a, w, ha, by rw [hanswer]⟩ (by rw [hasked, Nat.mul_add_mod, Nat.mod_eq_of_lt hlt])
      (by rw [hasked, Nat.mul_add_div (Nat.zero_lt_of_lt hlt), Nat.div_eq_of_lt hlt, Nat.add_zero]) hstate hroom
    have hsize : (s.answered limits goal ps ⟨index, vertexOfRound round, state, answer⟩).asked.size =
        actuators.length * round + (index + 1) := by
      rw [asked_answered, Array.size_push, hasked, Nat.add_assoc]
    have hvalue : (s.answered limits goal ps ⟨index, vertexOfRound round, state, answer⟩).graph.value?
        (vertexOfRound round) = some state := value?_answered hstate
    cases answer with
    | error error =>
      rw [answered_error rfl] at hscheduled hsize
      exact ih (index + 1) hnext hlt hscheduled hsize hstate hroom
    | ok candidates =>
      rw [answered_ok rfl] at hscheduled hsize hvalue
      dsimp only
      split
      · rename_i hfull
        exact ⟨hscheduled, fun hlt => absurd hlt (Nat.not_lt.mpr hfull)⟩
      · rename_i hfull
        exact ih (index + 1) hnext hlt hscheduled hsize hvalue (Nat.not_le.mp hfull)

/-- Where an exploration ends with room left, every actuator was asked about every vertex but the goal. -/
theorem explore_scheduled {v : Nat} (round : Nat) (hv : v = vertexOfRound round)
    (h : Scheduled limits actuators start goal ps s) (hasked : s.asked.size = actuators.length * round)
    (hle : v ≤ s.graph.size) :
    Scheduled limits actuators start goal ps (explore limits goal ps actuators v s w).1 ∧
      ((explore limits goal ps actuators v s w).1.graph.size < limits.states →
        (explore limits goal ps actuators v s w).1.asked.size =
          actuators.length * ((explore limits goal ps actuators v s w).1.graph.size - 1)) := by
  fun_induction explore limits goal ps actuators v s w generalizing round with
  | case1 v s w hroom state hstate s' w' hvisit ih =>
    subst hv
    obtain ⟨hscheduled, hcomplete⟩ :=
      visit_scheduled (w := w) round 0 actuators rfl (Nat.zero_le _) h hasked hstate hroom.2
    have hsize : s.graph.size ≤ (visit limits goal ps (vertexOfRound round) state 0 actuators s w).1.graph.size :=
      size_le_visit 0 actuators
    rw [hvisit] at hscheduled hcomplete hsize
    have hnext : following (vertexOfRound round) ≤ s'.graph.size := by
      have hgoal := Nat.lt_of_lt_of_le h.grown.goal_lt hsize
      have hvertex := Nat.lt_of_lt_of_le hroom.1 hsize
      unfold following
      split
      · exact hgoal
      · exact hvertex
    -- With room left the visit was complete, and the next round is about the following vertex.
    by_cases hfull : s'.graph.size < limits.states
    · exact ih (round + 1) (following_vertexOfRound round) hscheduled (hcomplete hfull) hnext
    · rw [explore, dif_neg fun hroom' => hfull hroom'.2]
      exact ⟨hscheduled, fun hroom' => absurd hroom' hfull⟩
  | case2 v s w hroom hstate =>
    obtain ⟨state, hsome⟩ := Graph.exists_value? hroom.1
    rw [hstate] at hsome
    cases hsome
  | case3 v s w hroom =>
    refine ⟨h, fun hlt => ?_⟩
    have hgoal := h.grown.goal_lt
    -- The vertex of the next round does not exist, so there were as many rounds as vertices besides the goal.
    have hround : round = s.graph.size - 1 := by
      have hge : v = s.graph.size := Nat.le_antisymm hle (Nat.le_of_not_lt fun hv => hroom ⟨hv, hlt⟩)
      rw [hv, vertexOfRound] at hge
      split at hge
      · exact absurd (hge ▸ hgoal) (Nat.not_lt_zero _)
      · rw [← hge]
        exact (Nat.add_sub_cancel_left goalId round).symm
    rw [hasked, hround]

theorem explored_scheduled :
    Scheduled limits actuators start goal ps (explored limits actuators start goal ps w).1 ∧
      ((explored limits actuators start goal ps w).1.graph.size < limits.states →
        (explored limits actuators start goal ps w).1.asked.size =
          actuators.length * ((explored limits actuators start goal ps w).1.graph.size - 1)) :=
  explore_scheduled 0 rfl .initial rfl (Nat.zero_le _)

/-- The explored graph has grown from the start and the goal. -/
theorem explored_grown : Grown limits actuators start goal ps (explored limits actuators start goal ps w).1 :=
  explored_scheduled.1.grown

end
end Intendant.Synthesis
