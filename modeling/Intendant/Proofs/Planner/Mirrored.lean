import Intendant.Planner.Plan
import Intendant.Proofs.Planner.Structure
import Mathlib.Data.List.Forall2

/-! # Planning with stand-ins

A stand-in answers for another actuator and keeps a memory of its own (`Mirrors`). It proposes what the other one
proposes, but it may hide a failure behind an empty answer. An exploration never notices, because a failure is only met
while there is room, and then going on is all that happens either way. So a planner builds the same graph from the
stand-ins (`build_mirrored`) and finds the same plan (`createPlan_mirrored`). -/

namespace Intendant

/-- The candidates in an answer. A failure holds none. -/
def candidatesOf : Except ActuatorError (List Candidate) → List Candidate
  | .ok candidates => candidates
  | .error _ => []

/-- The question with a failure hidden behind an empty answer. -/
def Asked.hushed (q : Asked) : Asked := { q with answer := .ok (candidatesOf q.answer) }

theorem Asked.looked_hushed (limits : PlannerLimits) (q : Asked) : q.hushed.looked limits = q.looked limits := by
  unfold hushed looked
  cases q.answer with
  | ok candidates => rfl
  | error e => exact List.take_nil

namespace Synthesis

/-- The synthesis with other questions noted. -/
def withAsked (s : Synthesis) (asked : Array Asked) : Synthesis := { s with asked := asked }

/-- The synthesis with all failures hidden. -/
def hushed (s : Synthesis) : Synthesis := s.withAsked (s.asked.map Asked.hushed)

@[simp] theorem graph_hushed (s : Synthesis) : s.hushed.graph = s.graph := rfl

@[simp] theorem hasGoal_hushed (s : Synthesis) : s.hushed.hasGoal = s.hasGoal := rfl

@[simp] theorem overflowed_hushed (s : Synthesis) : s.hushed.overflowed = s.overflowed := rfl

section
variable {σ τ : Type} {limits : PlannerLimits} {start goal : State} {ps : Profiles} {s : Synthesis} {v : Nat}

/-! ### The questions do not matter for what is built -/

theorem takeIn_withAsked (asked : Array Asked) (c : Candidate) :
    takeIn limits goal ps v (s.withAsked asked) c = (takeIn limits goal ps v s c).withAsked asked := by
  cases hnew : s.graph.newest? c.state with
  | some known =>
    rw [takeIn_known hnew, takeIn_known (s := s.withAsked asked) hnew]
    rfl
  | none =>
    by_cases hfull : limits.states ≤ s.graph.size
    · rw [takeIn_full hnew hfull, takeIn_full (s := s.withAsked asked) hnew hfull]
    · rw [takeIn_fresh hnew (Nat.not_le.mp hfull), takeIn_fresh (s := s.withAsked asked) hnew (Nat.not_le.mp hfull)]
      split <;> rfl

theorem answered_withAsked (asked : Array Asked) {q r : Asked} (hvertex : r.vertex = q.vertex)
    (hlooked : r.looked limits = q.looked limits) :
    (s.withAsked asked).answered limits goal ps r = (s.answered limits goal ps q).withAsked (asked.push r) := by
  rw [answered, answered, hvertex, hlooked]
  have hstart : { s.withAsked asked with asked := (s.withAsked asked).asked.push r } =
      withAsked { s with asked := s.asked.push q } (asked.push r) := rfl
  rw [hstart]
  exact List.foldl_hom (withAsked · (asked.push r)) fun _ _ => takeIn_withAsked _ _

theorem withShortcut_withAsked (asked : Array Asked) :
    (s.withAsked asked).withShortcut start = (s.withShortcut start).withAsked asked := by
  have hgraph : (s.withAsked asked).graph = s.graph := rfl
  unfold withShortcut
  rw [hgraph]
  cases s.graph.solve startId goalId .hops noEstimate with
  | found path actions =>
    dsimp only
    cases path.dropLast.getLast? with
    | none => rfl
    | some lastId =>
      -- Whether the cost is there or not does not depend on the questions.
      dsimp only
      split <;> rfl
  | _ => rfl

theorem finished_withAsked (asked : Array Asked) :
    finished start goal ps (s.withAsked asked) = (finished start goal ps s).withAsked asked := by
  by_cases h : (start.isBetter goal ps && decide (0 < s.graph.edgeCount)) = true
  · exact (if_pos h).trans ((withShortcut_withAsked asked).trans (congrArg (withAsked · asked) (if_pos h).symm))
  · exact (if_neg h).trans (congrArg (withAsked · asked) (if_neg h).symm)

theorem asked_finished : (finished start goal ps s).asked = s.asked := by
  unfold finished withShortcut
  split
  · split
    · dsimp only
      split
      · rfl
      · split <;> rfl
    · rfl
  · rfl

theorem plan?_hushed : Planner.plan? limits ps s.hushed = Planner.plan? limits ps s := rfl

theorem answered_hushed (q : Asked) :
    s.hushed.answered limits goal ps q.hushed = (s.answered limits goal ps q).hushed := by
  rw [hushed, answered_withAsked (s.asked.map Asked.hushed) (q := q) (r := q.hushed) rfl (q.looked_hushed limits), hushed,
    asked_answered, Array.map_push]

theorem finished_hushed : finished start goal ps s.hushed = (finished start goal ps s).hushed := by
  rw [hushed, finished_withAsked, hushed, asked_finished]

theorem graph_eq_of_hushed {r : Synthesis} (h : r.hushed = s.hushed) : r.graph = s.graph := by
  rw [← graph_hushed r, h, graph_hushed]

theorem hasGoal_eq_of_hushed {r : Synthesis} (h : r.hushed = s.hushed) : r.hasGoal = s.hasGoal := by
  rw [← hasGoal_hushed r, h, hasGoal_hushed]

theorem overflowed_eq_of_hushed {r : Synthesis} (h : r.hushed = s.hushed) : r.overflowed = s.overflowed := by
  rw [← overflowed_hushed r, h, overflowed_hushed]

theorem answered_hushed_congr {r : Synthesis} {q q' : Asked} (h : r.hushed = s.hushed) (hq : q'.hushed = q.hushed) :
    (r.answered limits goal ps q').hushed = (s.answered limits goal ps q).hushed := by
  rw [← answered_hushed, ← answered_hushed, h, hq]

/-! ### Questions are kept -/

theorem mem_asked_visit {state : State} {index : Nat} {as : List (Actuator σ)} {w : σ} {q : Asked}
    (hroom : s.graph.size < limits.states) (hq : q ∈ s.asked) :
    q ∈ (visit limits goal ps v state index as s w).1.asked := by
  induction as generalizing index s w with
  | nil => exact hq
  | cons a rest ih =>
    have hq' : ∀ r, q ∈ (s.answered limits goal ps r).asked := by
      intro r
      rw [asked_answered]
      exact Array.mem_push_of_mem r hq
    rw [visit_cons hroom rfl]
    dsimp only
    split
    · exact hq' _
    · rename_i hroom'
      exact ih (Nat.not_le.mp hroom') (hq' _)

/-- The first question of a visit is noted. -/
theorem first_mem_asked_visit {state : State} {index : Nat} {a : Actuator σ} {rest : List (Actuator σ)} {w : σ}
    (hroom : s.graph.size < limits.states) :
    ⟨index, v, state, (a.nextState state goal ps w).1⟩ ∈ (visit limits goal ps v state index (a :: rest) s w).1.asked := by
  have hmem : ∀ q : Asked, q ∈ (s.answered limits goal ps q).asked := by
    intro q
    rw [asked_answered]
    exact Array.mem_push_self
  rw [visit_cons hroom rfl]
  dsimp only
  split
  · exact hmem _
  · rename_i hroom'
    exact mem_asked_visit (Nat.not_le.mp hroom') (hmem _)

theorem mem_asked_explore {as : List (Actuator σ)} {w : σ} {q : Asked} (hq : q ∈ s.asked) :
    q ∈ (explore limits goal ps as v s w).1.asked := by
  fun_induction explore limits goal ps as v s w with
  | case1 v s w hroom state hstate s' w' hvisit ih =>
    have hq' : q ∈ (visit limits goal ps v state 0 as s w).1.asked := mem_asked_visit hroom.2 hq
    rw [hvisit] at hq'
    exact ih hq'
  | case2 v s w hroom hstate => exact hq
  | case3 v s w hroom => exact hq

/-- Two explorations side by side: what visits keep, the explorations keep, as long as it implies that the graphs are
    the same. -/
theorem explore_related {as : List (Actuator σ)} {bs : List (Actuator τ)} {Q : Synthesis × τ → Synthesis × σ → Prop}
    {P : Asked → Prop} {r : Synthesis} {t : τ} {w : σ} (hgraph : ∀ {x y}, Q x y → x.1.graph = y.1.graph)
    (hvisit : ∀ {r s t w} v state, Q (r, t) (s, w) → s.graph.size < limits.states →
      (∀ q ∈ (visit limits goal ps v state 0 as s w).1.asked, P q) →
      Q (visit limits goal ps v state 0 bs r t) (visit limits goal ps v state 0 as s w))
    (h : Q (r, t) (s, w)) (hP : ∀ q ∈ (explore limits goal ps as v s w).1.asked, P q) :
    Q (explore limits goal ps bs v r t) (explore limits goal ps as v s w) := by
  fun_induction explore limits goal ps as v s w generalizing r t with
  | case1 v s w hroom state hstate s' w' heq ih =>
    have hallowed : ∀ q ∈ (visit limits goal ps v state 0 as s w).1.asked, P q := by
      intro q hq
      rw [heq] at hq
      exact hP q (mem_asked_explore hq)
    have hvisited := hvisit v state h hroom.2 hallowed
    rw [heq] at hvisited
    rw [explore_room (hgraph h ▸ hroom) (hgraph h ▸ hstate)]
    exact ih hvisited hP
  | case2 v s w hroom hstate =>
    obtain ⟨state, hsome⟩ := Graph.exists_value? hroom.1
    rw [hstate] at hsome
    cases hsome
  | case3 v s w hfull =>
    rw [explore_full (hgraph h ▸ hfull)]
    exact h

end

/-! ### Stand-ins -/

section
variable {σ τ : Type}

/-- One actuator stands in for another one at the questions that `P` allows, where `R` relates their memories. -/
def Mirrors (R : τ → σ → Prop) (P : Asked → Prop) (goal : State) (ps : Profiles) (b : Actuator τ) (a : Actuator σ) : Prop :=
  ∀ index vertex state t w, R t w → P ⟨index, vertex, state, (a.nextState state goal ps w).1⟩ →
    candidatesOf (b.nextState state goal ps t).1 = candidatesOf (a.nextState state goal ps w).1 ∧
      R (b.nextState state goal ps t).2 (a.nextState state goal ps w).2

variable {R : τ → σ → Prop} {P : Asked → Prop} {limits : PlannerLimits} {start goal : State} {ps : Profiles}
  {bs : List (Actuator τ)} {as : List (Actuator σ)} {r s : Synthesis} {t : τ} {w : σ} {v : Nat}

theorem visit_mirrored (h : List.Forall₂ (Mirrors R P goal ps) bs as) {index : Nat} {state : State}
    (hs : r.hushed = s.hushed) (hR : R t w) (hroom : s.graph.size < limits.states)
    (hP : ∀ q ∈ (visit limits goal ps v state index as s w).1.asked, P q) :
    (visit limits goal ps v state index bs r t).1.hushed = (visit limits goal ps v state index as s w).1.hushed ∧
      R (visit limits goal ps v state index bs r t).2 (visit limits goal ps v state index as s w).2 := by
  induction h generalizing index r s t w with
  | nil => exact ⟨hs, hR⟩
  | @cons b a bs as hab _ ih =>
    have hroom' : r.graph.size < limits.states := by rwa [graph_eq_of_hushed hs]
    obtain ⟨q, hq⟩ : ∃ q : Asked, q = ⟨index, v, state, (a.nextState state goal ps w).1⟩ := ⟨_, rfl⟩
    have hallowed : P q := hP q (hq ▸ first_mem_asked_visit hroom)
    rw [visit_cons hroom rfl, ← hq] at hP
    rw [visit_cons hroom rfl, visit_cons hroom' rfl, ← hq]
    dsimp only at hP ⊢
    obtain ⟨hmirror, hR'⟩ := hab index v state t w hR (hq ▸ hallowed)
    have hs' : (r.answered limits goal ps ⟨index, v, state, (b.nextState state goal ps t).1⟩).hushed =
        (s.answered limits goal ps q).hushed := by
      refine answered_hushed_congr hs ?_
      rw [hq, Asked.hushed, Asked.hushed, hmirror]
    rw [graph_eq_of_hushed hs']
    by_cases hfull : limits.states ≤ (s.answered limits goal ps q).graph.size
    · rw [if_pos hfull, if_pos hfull]
      exact ⟨hs', hR'⟩
    · rw [if_neg hfull] at hP
      rw [if_neg hfull, if_neg hfull]
      exact ih hs' hR' (Nat.not_le.mp hfull) hP

theorem explore_mirrored (h : List.Forall₂ (Mirrors R P goal ps) bs as) (hs : r.hushed = s.hushed) (hR : R t w)
    (hP : ∀ q ∈ (explore limits goal ps as v s w).1.asked, P q) :
    (explore limits goal ps bs v r t).1.hushed = (explore limits goal ps as v s w).1.hushed ∧
      R (explore limits goal ps bs v r t).2 (explore limits goal ps as v s w).2 :=
  explore_related (Q := fun x y => x.1.hushed = y.1.hushed ∧ R x.2 y.2) (fun hxy => graph_eq_of_hushed hxy.1)
    (fun _ _ ⟨hs, hR⟩ hroom hP => visit_mirrored h hs hR hroom hP) ⟨hs, hR⟩ hP

/-- Stand-ins lead to the graph that the actuators lead to themselves. -/
theorem build_mirrored (h : List.Forall₂ (Mirrors R P goal ps) bs as) (hR : R t w)
    (hP : ∀ q ∈ (build limits as start goal ps w).1.asked, P q) :
    (build limits bs start goal ps t).1.hushed = (build limits as start goal ps w).1.hushed ∧
      R (build limits bs start goal ps t).2 (build limits as start goal ps w).2 := by
  rw [(build_finishes limits as start goal ps w).asked] at hP
  obtain ⟨hs, hR'⟩ := explore_mirrored h rfl hR hP
  refine ⟨?_, hR'⟩
  change (finished start goal ps (explored limits bs start goal ps t).1).hushed =
    (finished start goal ps (explored limits as start goal ps w).1).hushed
  rw [← finished_hushed, ← finished_hushed, explored, explored, hs]

end
end Synthesis

/-- Stand-ins lead to the plan that the actuators lead to themselves. -/
theorem Planner.createPlan_mirrored {σ τ : Type} {R : τ → σ → Prop} {P : Asked → Prop} {limits : PlannerLimits}
    {start goal : State} {ps : Profiles} {bs : List (Actuator τ)} {as : List (Actuator σ)} {t : τ} {w : σ}
    (h : List.Forall₂ (Synthesis.Mirrors R P goal ps) bs as) (hR : R t w)
    (hP : ∀ q ∈ (Synthesis.build limits as start goal ps w).1.asked, P q) :
    (createPlan limits bs start goal ps t).1 = (createPlan limits as start goal ps w).1 := by
  obtain ⟨hs, -⟩ := Synthesis.build_mirrored h hR hP
  change plan? limits ps (Synthesis.build limits bs start goal ps t).1 =
    plan? limits ps (Synthesis.build limits as start goal ps w).1
  rw [← Synthesis.plan?_hushed, hs, Synthesis.plan?_hushed]

end Intendant
