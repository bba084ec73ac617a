import Mathlib.Algebra.Order.BigOperators.Group.List
import Intendant.Proofs.Planner.Edges
import Intendant.Proofs.Planner.Structure
import Intendant.Proofs.Planner.Worklist

/-! # What a synthesis costs

The limits bound the work whatever the actuators answer: the rounds end, no actuator is asked twice about a vertex, and
neither vertices nor edges exceed what the limits allow. -/

namespace Intendant

theorem Asked.length_looked_le (limits : PlannerLimits) (q : Asked) : (q.looked limits).length ≤ limits.candidates := by
  unfold looked
  split
  · exact List.length_take_le ..
  · exact Nat.zero_le _

namespace Synthesis

section
variable {σ : Type} {limits : PlannerLimits} {actuators : List (Actuator σ)} {start goal : State} {ps : Profiles}
  {s : Synthesis}

theorem length_entry_le (goal : State) (ps : Profiles) (g : Graph State Float) (u : Nat) :
    (entry goal ps g u).length ≤ 1 := by
  unfold entry
  split
  · exact Nat.le_refl 1
  · exact Nat.zero_le 1

namespace Scheduled
variable (h : Scheduled limits actuators start goal ps s)
include h

/-- No actuator is asked twice about one vertex. -/
theorem nodup_asked : (s.asked.toList.map fun q => (q.vertex, q.actuator)).Nodup := by
  rw [h.asked_eq]
  refine List.Nodup.map_on (fun i _ j _ hij => ?_) List.nodup_range
  obtain ⟨hvertex, hactuator⟩ := Prod.mk.inj hij
  have hround : i / actuators.length = j / actuators.length := by
    rcases Nat.lt_trichotomy (i / actuators.length) (j / actuators.length) with hlt | heq | hgt
    · exact absurd hvertex (Nat.ne_of_lt (vertexOfRound_lt hlt))
    · exact heq
    · exact absurd hvertex (Nat.ne_of_gt (vertexOfRound_lt hgt))
  rw [← Nat.div_add_mod i actuators.length, ← Nat.div_add_mod j actuators.length, hround, hactuator]

theorem length_proposals_le {u : Nat} (hu : u ≠ goalId) :
    (s.proposals limits u).length ≤ actuators.length * limits.candidates := by
  obtain ⟨round, rfl⟩ := exists_vertexOfRound hu
  have hasked : (s.asked.toList.filter (·.vertex = vertexOfRound round)).length ≤ actuators.length := by
    have hlength := congrArg List.length (h.actuators_asked round)
    rw [List.length_map, List.length_range] at hlength
    exact hlength ▸ Nat.min_le_left ..
  have hlooked : ∀ n ∈ (s.asked.toList.filter (·.vertex = vertexOfRound round)).map fun q => (q.looked limits).length,
      n ≤ limits.candidates := by
    intro n hn
    obtain ⟨q, -, rfl⟩ := List.mem_map.mp hn
    exact q.length_looked_le limits
  have hsum := List.sum_le_card_nsmul _ _ hlooked
  rw [List.length_map, smul_eq_mul] at hsum
  rw [proposals, List.length_flatMap]
  exact hsum.trans (Nat.mul_le_mul_right _ hasked)

theorem length_successors_le (u : Nat) :
    (s.graph.successors u).length ≤ (entry goal ps s.graph u).length + actuators.length * limits.candidates := by
  by_cases hu : u = goalId
  · rw [hu, h.grown.charted.successors_goal]
    exact Nat.zero_le _
  · rw [h.grown.successors_eq, List.length_append]
    exact Nat.add_le_add_left ((List.length_filterMap_le ..).trans (h.length_proposals_le hu)) _

end Scheduled

/-- Every synthesis keeps its bounds. The rounds over the queue come to an end, after no more of them than the limit of
    vertices, in the explored graph. It has no more vertices than the limit, but always the start and the goal, and the
    built graph has at most one more. Every actuator is asked at most once about a vertex, and never about the goal or
    the middle of a shortcut. No vertex of the built graph has more edges than there are candidates to look at in the
    answers of all actuators, and one. -/
theorem build_bounded (limits : PlannerLimits) (actuators : List (Actuator σ)) (start goal : State) (ps : Profiles)
    (w : σ) :
    let before := (explored limits actuators start goal ps w).1
    let s := (build limits actuators start goal ps w).1
    (∃ n last, n ≤ limits.states ∧
      Worklist.Rounds limits goal ps actuators n ⟨[startId], .initial start goal, w⟩ last ∧
      last.round? limits goal ps actuators = none ∧
      (last.known, last.memory) = explored limits actuators start goal ps w) ∧
    before.graph.size ≤ max 2 limits.states ∧ s.graph.size ≤ before.graph.size + 1 ∧
    (s.asked.toList.map fun q => (q.vertex, q.actuator)).Nodup ∧
    (∀ q ∈ s.asked, q.actuator < actuators.length ∧ q.vertex ≠ goalId ∧ q.vertex < before.graph.size) ∧
    ∀ u, (s.graph.successors u).length ≤ actuators.length * limits.candidates + 1 := by
  intro before s
  have hscheduled : Scheduled limits actuators start goal ps before := explored_scheduled.1
  have hcharted := hscheduled.grown.charted
  have hs : Finishes start goal ps before s := build_finishes limits actuators start goal ps w
  refine ⟨Worklist.explored_rounds limits actuators start goal ps w, hscheduled.grown.size_le, ?_, ?_, fun q hq => ?_,
    fun u => ?_⟩
  · refine Nat.le_of_not_lt fun hlt => ?_
    exact Nat.succ_ne_self _ (hs.middle _ (Nat.le_succ _) hlt).1
  · rw [hs.asked]
    exact hscheduled.nodup_asked
  · rw [hs.asked] at hq
    obtain ⟨⟨a, -, ha, -⟩, hne, hstate⟩ := hcharted.asked q hq
    exact ⟨(List.getElem?_eq_some_iff.mp ha).1, hne, Graph.lt_size_of_value? hstate⟩
  · have hlength := hscheduled.length_successors_le u
    have hentry := length_entry_le goal ps before.graph u
    by_cases hu : u < before.graph.size
    · obtain ⟨es, heq, rfl | ⟨rfl, cost, rfl⟩⟩ := hs.successors u hu
      · rw [heq, List.append_nil]
        omega
      · -- The start has no edge of its own into the goal, so there is room for the one to the middle.
        have hnone : entry goal ps before.graph startId = [] := if_neg fun h => Nat.not_lt_zero _ h.1
        rw [hnone, List.length_nil, Nat.zero_add] at hlength
        rw [heq, List.length_append, List.length_singleton]
        exact Nat.succ_le_succ hlength
    · by_cases hu_lt : u < s.graph.size
      · rw [(hs.middle u (Nat.not_lt.mp hu) hu_lt).2.2.2.1]
        exact Nat.succ_le_succ (Nat.zero_le _)
      · rw [Graph.successors_eq_nil (Nat.not_lt.mp hu_lt)]
        exact Nat.zero_le _

end
end Synthesis
end Intendant
