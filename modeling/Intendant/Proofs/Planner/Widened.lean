import Intendant.Proofs.Planner.Detour
import Intendant.Proofs.Planner.Structure

/-! # Wider limits

An exploration with room for more vertices runs as the narrower one does until that one is full. From then on the
narrower one only adds edges between known vertices, and those the wider one adds as well (`Follows`). So nothing is
lost: the wider graph extends the narrower one (`build_widened`). All of it is lost, though, where the wider exploration
reaches the goal only to be given up for a footprint (`build_widened_overflows`). -/

namespace Intendant.Synthesis

/-- Everything of one synthesis is found in another one, where more vertices and edges may follow. -/
structure Extends (s t : Synthesis) : Prop where
  values : s.graph.values <+: t.graph.values
  newest : ∀ state u, s.graph.newest? state = some u → t.graph.newest? state = some u
  successors : ∀ u, (s.graph.successors u).Sublist (t.graph.successors u)
  hasGoal : s.hasGoal = true → t.hasGoal = true

section
variable {σ : Type} {limits : PlannerLimits} {goal : State} {ps : Profiles} {r s t : Synthesis} {u v : Nat}
  {c : Candidate}

namespace Extends

theorem refl (s : Synthesis) : Extends s s where
  values := List.prefix_rfl
  newest _ _ h := h
  successors _ := .refl _
  hasGoal h := h

theorem trans (h : Extends r s) (h' : Extends s t) : Extends r t where
  values := h.values.trans h'.values
  newest state u hu := h'.newest state u (h.newest state u hu)
  successors u := (h.successors u).trans (h'.successors u)
  hasGoal hr := h'.hasGoal (h.hasGoal hr)

theorem size_le (h : Extends s t) : s.graph.size ≤ t.graph.size := by
  have hlength := h.values.length_le
  rwa [Graph.length_values, Graph.length_values] at hlength

theorem reaches (h : Extends s t) (hreach : s.graph.Reaches u v) : t.graph.Reaches u v :=
  hreach.mono fun x _ he => (h.successors x).subset he

/-- An edge that both get is in both. -/
theorem addEdge (h : Extends s t) (u v : Nat) (utility : Float) (action : Action) :
    Extends { s with graph := s.graph.addEdge u v utility action }
      { t with graph := t.graph.addEdge u v utility action } where
  values := by
    rw [Graph.values_addEdge, Graph.values_addEdge]
    exact h.values
  newest state x hx := by
    rw [Graph.newest?_addEdge] at hx ⊢
    exact h.newest state x hx
  successors x := by
    by_cases hends : u < s.graph.size ∧ v < s.graph.size
    · have hends' := And.intro (hends.1.trans_le h.size_le) (hends.2.trans_le h.size_le)
      rw [Graph.successors_addEdge hends.1 hends.2, Graph.successors_addEdge hends'.1 hends'.2]
      split
      · exact (h.successors x).append (.refl _)
      · exact h.successors x
    · rw [Graph.successors_addEdge_of_not hends]
      exact (h.successors x).trans (Graph.sublist_addEdge ..)
  hasGoal := h.hasGoal

theorem addEdge_right (h : Extends s t) (u v : Nat) (utility : Float) (action : Action) :
    Extends s { t with graph := t.graph.addEdge u v utility action } where
  values := by
    rw [Graph.values_addEdge]
    exact h.values
  newest state x hx := by
    rw [Graph.newest?_addEdge]
    exact h.newest state x hx
  successors x := (h.successors x).trans (Graph.sublist_addEdge ..)
  hasGoal := h.hasGoal

/-- A vertex with a state that is not known yet comes behind all others. -/
theorem addVertex_right (h : Extends s t) {state : State} (hnew : t.graph.newest? state = none) :
    Extends s { t with graph := t.graph.addVertex state } where
  values := by
    rw [Graph.values_addVertex]
    exact h.values.trans (List.prefix_append _ _)
  newest other x hx := by
    have hknown := h.newest other x hx
    have hne : other ≠ state := by
      rintro rfl
      rw [hnew] at hknown
      cases hknown
    rw [Graph.newest?_addVertex, if_neg hne, hknown]
  successors x := by
    rw [Graph.successors_addVertex]
    exact h.successors x
  hasGoal := h.hasGoal

end Extends

/-! ### Growing further -/

theorem extends_takeIn (limits : PlannerLimits) (goal : State) (ps : Profiles) (v : Nat) (s : Synthesis) (c : Candidate) :
    Extends s (takeIn limits goal ps v s c) := by
  rcases takeIn_cases limits goal ps v s c with ⟨known, -, heq⟩ | heq | ⟨hnew, hroom⟩
  · rw [heq]
    exact (Extends.refl s).addEdge_right ..
  · rw [heq]
    exact .refl s
  · have hdiscovered : Extends s { s with graph := s.discovered v c } :=
      ((Extends.refl s).addVertex_right hnew).addEdge_right ..
    rw [takeIn_fresh hnew hroom]
    split
    · have harrives := hdiscovered.addEdge_right s.graph.size goalId 0.0 { name := Action.done }
      exact ⟨harrives.values, harrives.newest, harrives.successors, fun _ => rfl⟩
    · exact hdiscovered

theorem extends_foldl_takeIn (cs : List Candidate) (h : Extends s t) :
    Extends s (cs.foldl (takeIn limits goal ps v) t) :=
  List.foldlRecOn (motive := fun t => Extends s t) cs _ h fun t ht c _ => ht.trans (extends_takeIn limits goal ps v t c)

theorem extends_answered (q : Asked) (h : Extends s t) : Extends s (t.answered limits goal ps q) :=
  extends_foldl_takeIn _ ⟨h.values, h.newest, h.successors, h.hasGoal⟩

theorem extends_visit {as : List (Actuator σ)} {index : Nat} {state : State} {w : σ} (hroom : t.graph.size < limits.states)
    (h : Extends s t) : Extends s (visit limits goal ps v state index as t w).1 := by
  induction as generalizing index t w with
  | nil => exact h
  | cons a rest ih =>
    have hanswered : Extends s (t.answered limits goal ps ⟨index, v, state, (a.nextState state goal ps w).1⟩) :=
      extends_answered _ h
    rw [visit_cons hroom rfl]
    dsimp only
    split
    · exact hanswered
    · rename_i hroom
      exact ih (Nat.not_le.mp hroom) hanswered

theorem extends_explore {as : List (Actuator σ)} {w : σ} (h : Extends s t) :
    Extends s (explore limits goal ps as v t w).1 := by
  fun_induction explore limits goal ps as v t w with
  | case1 v t w hroom state hstate t' w' hvisit ih =>
    have hvisited : Extends s (visit limits goal ps v state 0 as t w).1 := extends_visit hroom.2 h
    rw [hvisit] at hvisited
    exact ih hvisited
  | case2 => exact h
  | case3 => exact h

/-! ### Two explorations -/

/-- One exploration with its limit and a wider one: they agree, or the narrower one is full and the wider one extends
    it. -/
def Follows (limits : PlannerLimits) (s t : Synthesis) : Prop :=
  s = t ∨ limits.states ≤ s.graph.size ∧ Extends s t

theorem Follows.extends (h : Follows limits s t) : Extends s t := by
  rcases h with rfl | ⟨-, h⟩
  · exact .refl s
  · exact h

variable {states : Nat}

theorem Follows.takeIn (hle : limits.states ≤ states) (h : Follows limits s t) (v : Nat) (c : Candidate) :
    Follows limits (takeIn limits goal ps v s c) (takeIn { limits with states := states } goal ps v t c) := by
  rcases h with rfl | ⟨hfull, h⟩
  · cases hknown : s.graph.newest? c.state with
    | some known =>
      rw [takeIn_known hknown, takeIn_known hknown]
      exact .inl rfl
    | none =>
      -- Both take the candidate in alike, unless only the wider one has room for its vertex.
      by_cases hfull : limits.states ≤ s.graph.size
      · refine .inr ?_
        rw [takeIn_full hknown hfull]
        exact ⟨hfull, extends_takeIn ..⟩
      · have hroom := Nat.not_le.mp hfull
        rw [takeIn_fresh hknown hroom, takeIn_fresh hknown (hroom.trans_le hle)]
        exact .inl rfl
  · refine .inr ?_
    cases hknown : s.graph.newest? c.state with
    | some known =>
      rw [takeIn_known hknown, takeIn_known (h.newest _ _ hknown), Graph.size_addEdge]
      exact ⟨hfull, h.addEdge ..⟩
    | none =>
      rw [takeIn_full hknown hfull]
      exact ⟨hfull, h.trans (extends_takeIn ..)⟩

theorem Follows.answered (hle : limits.states ≤ states) (h : Follows limits s t) (q : Asked) :
    Follows limits (s.answered limits goal ps q) (t.answered { limits with states := states } goal ps q) := by
  have hfold : ∀ cs : List Candidate, ∀ {s t}, Follows limits s t →
      Follows limits (cs.foldl (Synthesis.takeIn limits goal ps q.vertex) s)
        (cs.foldl (Synthesis.takeIn { limits with states := states } goal ps q.vertex) t) := by
    intro cs
    induction cs with
    | nil => exact fun h => h
    | cons c cs ih => exact fun h => ih (h.takeIn hle q.vertex c)
  refine hfold (q.looked limits) ?_
  rcases h with rfl | ⟨hfull, h⟩
  · exact .inl rfl
  · exact .inr ⟨hfull, h.values, h.newest, h.successors, h.hasGoal⟩

/-- From the same synthesis and memory two visits agree in both, or the narrower one ends with a full graph. -/
theorem visit_widened (hle : limits.states ≤ states) {as : List (Actuator σ)} {index : Nat} {state : State} {w : σ}
    (hroom : s.graph.size < limits.states) :
    visit limits goal ps v state index as s w = visit { limits with states := states } goal ps v state index as s w ∨
      limits.states ≤ (visit limits goal ps v state index as s w).1.graph.size ∧
        Extends (visit limits goal ps v state index as s w).1
          (visit { limits with states := states } goal ps v state index as s w).1 := by
  induction as generalizing index s w with
  | nil => exact .inl rfl
  | cons a rest ih =>
    obtain ⟨q, hq⟩ : ∃ q : Asked, q = ⟨index, v, state, (a.nextState state goal ps w).1⟩ := ⟨_, rfl⟩
    have hfollows : Follows limits (s.answered limits goal ps q) (s.answered { limits with states := states } goal ps q) :=
      Follows.answered hle (.inl rfl) q
    have hwide : s.graph.size < ({ limits with states := states } : PlannerLimits).states := hroom.trans_le hle
    rw [visit_cons hroom rfl, visit_cons hwide rfl, ← hq]
    dsimp only
    by_cases hfull : limits.states ≤ (s.answered limits goal ps q).graph.size
    · refine .inr ?_
      rw [if_pos hfull]
      refine ⟨hfull, ?_⟩
      split
      · exact hfollows.extends
      · rename_i hroom
        exact extends_visit (Nat.not_le.mp hroom) hfollows.extends
    · obtain hsame | ⟨hfull', -⟩ := hfollows
      · have hroom' := Nat.not_le.mp hfull
        rw [if_neg hfull, ← hsame, if_neg (Nat.not_le.mpr (hroom'.trans_le hle))]
        exact ih hroom'
      · exact absurd hfull' hfull

theorem explore_widened (hle : limits.states ≤ states) {as : List (Actuator σ)} {w : σ} :
    Extends (explore limits goal ps as v s w).1 (explore { limits with states := states } goal ps as v s w).1 := by
  fun_induction explore limits goal ps as v s w with
  | case1 v s w hroom state hstate s' w' hvisit ih =>
    have hwide : s.graph.size < ({ limits with states := states } : PlannerLimits).states := hroom.2.trans_le hle
    rw [explore_room ⟨hroom.1, hwide⟩ hstate]
    rcases visit_widened hle hroom.2 with hsame | ⟨hfull, hextends⟩
    · rw [← hsame, hvisit]
      exact ih
    · rw [hvisit] at hfull hextends
      rw [explore_full fun h => Nat.not_le.mpr h.2 hfull]
      exact extends_explore hextends
  | case2 => exact extends_explore (.refl _)
  | case3 => exact extends_explore (.refl _)

end

/-- Raising the limit on the vertices loses nothing that is explored. A built graph finishes an explored one: it has at
    most the middle of a shortcut and its two edges more. The values that are explored with the smaller limit come first
    with the greater one, in the same order, every vertex keeps its edges in their order, and the flag stays set. With
    either limit the synthesis comes to an end of its own unless the shortcut of what was explored with that limit cannot
    be decided, and then there is no graph. -/
theorem build_widened {σ : Type} (limits : PlannerLimits) (states : Nat) (actuators : List (Actuator σ))
    (start goal : State) (ps : Profiles) (w : σ) (hle : limits.states ≤ states) :
    let wider := { limits with states := states }
    let s := (explored limits actuators start goal ps w).1
    let t := (explored wider actuators start goal ps w).1
    Finishes start goal ps s (build limits actuators start goal ps w).1 ∧
    Finishes start goal ps t (build wider actuators start goal ps w).1 ∧
    s.graph.values <+: t.graph.values ∧
    (∀ u, (s.graph.successors u).Sublist (t.graph.successors u)) ∧
    ((build limits actuators start goal ps w).1.hasGoal = true →
      (build wider actuators start goal ps w).1.hasGoal = true) ∧
    ((build limits actuators start goal ps w).1.overflowed = true ↔ Undecided start goal ps s) ∧
    ((build wider actuators start goal ps w).1.overflowed = true ↔ Undecided start goal ps t) := by
  intro wider s t
  have hextends : Extends s t := explore_widened hle
  have hs : Charted limits actuators start goal ps s := explored_grown.charted
  have ht : Charted wider actuators start goal ps t := explored_grown.charted
  have hs_start := Graph.lt_size_of_value? hs.start_value
  have hs_goal := Graph.lt_size_of_value? hs.goal_value
  have ht_start := Graph.lt_size_of_value? ht.start_value
  have ht_goal := Graph.lt_size_of_value? ht.goal_value
  refine ⟨build_finishes .., build_finishes .., hextends.values, hextends.successors, fun hflag => ?_,
    overflowed_finished_iff explored_grown.overflowed hs_start hs_goal,
    overflowed_finished_iff explored_grown.overflowed ht_start ht_goal⟩
  change (finished start goal ps s).hasGoal = true at hflag
  change (finished start goal ps t).hasGoal = true
  rcases finished_cases start goal ps hs_start hs_goal with heq | ⟨hbetter, hreach, -⟩
  · rw [heq] at hflag
    rcases finished_cases start goal ps ht_start ht_goal with heq' | ⟨-, -, ⟨cost, -, heq'⟩ | heq'⟩ <;> rw [heq']
    · exact hextends.hasGoal hflag
    · rfl
    · rfl
  · rcases finished_of_reaches hbetter ht_start ht_goal (hextends.reaches hreach) with ⟨cost, -, heq'⟩ | heq' <;>
      rw [heq'] <;> rfl

theorem build_widened_climber :
    3 ≤ 10 ∧ (build ⟨10, 5, 0⟩ [Planner.climber] here there .empty ()).1.hasGoal = true ∧
      [here, there, Planner.beyond] <+: (explored ⟨10, 5, 0⟩ [Planner.climber] here there .empty ()).1.graph.values := by
  have hle : 3 ≤ 10 := by decide
  have hbuild := Planner.build_climber
  have hexplored : (explored ⟨3, 5, 0⟩ [Planner.climber] here there .empty ()).1 =
      (build ⟨3, 5, 0⟩ [Planner.climber] here there .empty ()).1 := by
    have hworse : here.isBetter there .empty = false := by decide
    change _ = finished here there .empty (explored ⟨3, 5, 0⟩ [Planner.climber] here there .empty ()).1
    rw [finished, hworse, Bool.false_and, if_neg Bool.false_ne_true]
  obtain ⟨-, -, hvalues, -, hflag, -⟩ := build_widened ⟨3, 5, 0⟩ 10 [Planner.climber] here there .empty () hle
  rw [hexplored, hbuild] at hvalues
  rw [hbuild] at hflag
  exact ⟨hle, hflag (by decide), hvalues⟩

/-- With room for the two ends there is a graph, with room for one vertex more there is none: the exploration then
    reaches the goal, and the resources of the start overflow. -/
theorem build_widened_overflows :
    let narrow := (build ⟨2, 5, 0⟩ [Planner.climber] laden there .empty ()).1
    let wide := (build ⟨3, 5, 0⟩ [Planner.climber] laden there .empty ()).1
    narrow.overflowed = false ∧ narrow.graph.values = [laden, there] ∧
      (Planner.createPlan ⟨2, 5, 0⟩ [Planner.climber] laden there .empty ()).1 = some [] ∧
      wide.overflowed = true ∧ (Planner.createPlan ⟨3, 5, 0⟩ [Planner.climber] laden there .empty ()).1 = none := by
  intro narrow wide
  have hexplored : (explored ⟨2, 5, 0⟩ [Planner.climber] laden there .empty ()).1 = initial laden there := by
    rw [explored, explore, dif_neg (by decide)]
  have hnarrow : narrow = finished laden there .empty (initial laden there) :=
    congrArg (finished laden there .empty) hexplored
  have hbuilt : narrow = initial laden there := by
    rw [hnarrow]
    rfl
  have hgoing : narrow.overflowed = false := by
    rw [hbuilt]
    rfl
  refine ⟨hgoing, ?_, Planner.plan?_eq_some_iff.mpr ⟨hgoing, ?_⟩, overflowed_laden,
    Planner.plan?_eq_none_iff.mpr overflowed_laden⟩
  · rw [hbuilt]
    rfl
  · change Planner.planOf (narrow.route ⟨2, 5, 0⟩ .empty) = []
    rw [hbuilt]
    rfl

end Intendant.Synthesis
