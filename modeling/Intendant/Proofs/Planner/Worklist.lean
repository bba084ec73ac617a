import Intendant.Proofs.Planner.Schedule

/-! # Explorations as queues

Vertices wait in a queue to be taken up, and those that are found wait behind the others. As ids are given out in the
order in which vertices are found, the queue holds the ids behind the one taken up last, and the rounds over the queue
are those of `explore`. They come to an end after no more rounds than the limit of vertices (`explored_rounds`). -/

namespace Intendant.Synthesis

/-- Where an exploration stands: the vertices that wait, what is known so far, and the memory of the actuators. -/
structure Worklist (σ : Type) where
  waiting : List Nat
  known : Synthesis
  memory : σ

namespace Worklist

section
variable {σ : Type} (limits : PlannerLimits) (goal : State) (ps : Profiles) (actuators : List (Actuator σ))

/-- One round: the first vertex that waits is taken up. There is none where the graph is full or no vertex waits. -/
def round? (x : Worklist σ) : Option (Worklist σ) :=
  if x.known.graph.size < limits.states then
    match x.waiting with
    | [] => none
    | v :: rest =>
      match x.known.graph.value? v with
      | some state =>
        let (s, w) := visit limits goal ps v state 0 actuators x.known x.memory
        some ⟨rest ++ List.range' x.known.graph.size (s.graph.size - x.known.graph.size), s, w⟩
      | none => some { x with waiting := rest }
  else none

/-- So many rounds lead from one worklist to another one. -/
inductive Rounds : Nat → Worklist σ → Worklist σ → Prop
  | refl (x : Worklist σ) : Rounds 0 x x
  | step {n : Nat} {x y z : Worklist σ} (h : x.round? limits goal ps actuators = some y) (hs : Rounds n y z) :
      Rounds (n + 1) x z

end

/-- The vertices that wait before one is taken up: that one, and all that follow it. -/
def pending (v size : Nat) : List Nat := if v < size then v :: List.range' (following v) (size - following v) else []

section
variable {σ : Type} {limits : PlannerLimits} {goal : State} {ps : Profiles} {actuators : List (Actuator σ)}
  {s s' : Synthesis} {w w' : σ} {v m n : Nat} {state : State}

theorem lt_following (v : Nat) : v < following v := by
  unfold following
  split
  · rename_i hv
    rw [hv]
    decide
  · exact Nat.lt_succ_self v

theorem following_following (v : Nat) : following (following v) = following v + 1 :=
  if_neg (Nat.ne_of_gt (Nat.zero_lt_of_lt (lt_following v)))

theorem following_le (hv : v < n) (hgoal : goalId < n) : following v ≤ n := by
  unfold following
  split
  · exact hgoal
  · exact hv

/-- The vertices that are found stand behind those that wait. -/
theorem range'_append_pending (hv : following v ≤ m) (hmn : m ≤ n) :
    List.range' (following v) (m - following v) ++ List.range' m (n - m) = pending (following v) n := by
  have happend : List.range' (following v) (m - following v) ++ List.range' m (n - m) =
      List.range' (following v) (n - following v) := by
    have hm : following v + (m - following v) = m := Nat.add_sub_of_le hv
    have hn : m - following v + (n - m) = n - following v := by omega
    rw [← hn, ← List.range'_append_1, hm]
  rw [happend, pending, following_following]
  split
  · have hsucc : n - following v = n - (following v + 1) + 1 := by omega
    rw [hsucc, List.range'_succ]
  · rw [Nat.sub_eq_zero_of_le (Nat.le_of_not_lt ‹_›), List.range'_zero]

theorem round?_pending (hgoal : goalId < s.graph.size) (hv : v < s.graph.size) (hroom : s.graph.size < limits.states)
    (hstate : s.graph.value? v = some state) (hvisit : visit limits goal ps v state 0 actuators s w = (s', w')) :
    round? limits goal ps actuators ⟨pending v s.graph.size, s, w⟩ =
      some ⟨pending (following v) s'.graph.size, s', w'⟩ := by
  have hsize : s.graph.size ≤ (visit limits goal ps v state 0 actuators s w).1.graph.size := size_le_visit 0 actuators
  rw [hvisit] at hsize
  unfold round?
  rw [if_pos hroom]
  simp only [pending, if_pos hv, hstate, hvisit]
  rw [range'_append_pending (following_le hv hgoal) hsize, pending]

theorem round?_eq_none (h : ¬(v < s.graph.size ∧ s.graph.size < limits.states)) :
    round? limits goal ps actuators ⟨pending v s.graph.size, s, w⟩ = none := by
  unfold round?
  split
  · rename_i hroom
    simp only [pending, if_neg fun hv => h ⟨hv, hroom⟩]
  · rfl

theorem explore_rounds (v : Nat) (hgoal : goalId < s.graph.size) :
    ∃ n last, n ≤ limits.states - v ∧ Rounds limits goal ps actuators n ⟨pending v s.graph.size, s, w⟩ last ∧
      last.round? limits goal ps actuators = none ∧
      (last.known, last.memory) = explore limits goal ps actuators v s w := by
  fun_induction explore limits goal ps actuators v s w with
  | case1 v s w hroom state hstate s' w' hvisit ih =>
    have hsize : s.graph.size ≤ (visit limits goal ps v state 0 actuators s w).1.graph.size := size_le_visit 0 actuators
    rw [hvisit] at hsize
    obtain ⟨n, last, hn, hrounds, hend, hlast⟩ := ih (Nat.lt_of_lt_of_le hgoal hsize)
    have hfollowing := lt_following v
    exact ⟨n + 1, last, by omega, .step (round?_pending hgoal hroom.1 hroom.2 hstate hvisit) hrounds, hend, hlast⟩
  | case2 v s w hroom hstate =>
    obtain ⟨state, hsome⟩ := Graph.exists_value? hroom.1
    rw [hstate] at hsome
    cases hsome
  | case3 v s w hroom => exact ⟨0, _, Nat.zero_le _, .refl _, round?_eq_none hroom, rfl⟩

/-- The rounds that start with the first vertex alone end, and what is known then is the exploration. -/
theorem explored_rounds (limits : PlannerLimits) (actuators : List (Actuator σ)) (start goal : State) (ps : Profiles)
    (w : σ) :
    ∃ n last, n ≤ limits.states ∧ Rounds limits goal ps actuators n ⟨[startId], .initial start goal, w⟩ last ∧
      last.round? limits goal ps actuators = none ∧
      (last.known, last.memory) = explored limits actuators start goal ps w := by
  have hgoal : goalId < (Synthesis.initial start goal).graph.size := Nat.lt_succ_self 1
  exact explore_rounds startId hgoal

end
end Worklist
end Intendant.Synthesis
