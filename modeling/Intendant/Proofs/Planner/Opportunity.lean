import Intendant.Proofs.Planner.Satisfied

/-! # Opportunities

Without a path to the goal a planner ties the closest vertices to it: in the order of their distances, with NaN last,
and of their ids (`Precedes`). Every vertex is reached from the start, so with one vertex to tie there is a way, and the
plan leads to one of the chosen vertices or to the state of the goal itself (`createPlan_opportunistic`). -/

namespace Intendant
namespace Synthesis
open OpenSet (Sooner)

/-- One distance is less than another one, where NaN is greater than everything. -/
def Nearer (d d' : Float) : Prop := d < d' ∨ d.isNaN = false ∧ d'.isNaN = true

/-- The order in which vertices are chosen: by distance, then by id. -/
def Precedes (x y : Float × Nat) : Prop := Nearer x.1 y.1 ∨ ¬Nearer y.1 x.1 ∧ x.2 < y.2

theorem nearer_iff {d d' : Float} : Nearer d d' ↔ Cost.notAfter d' d = false := by
  have hnotAfter : Cost.notAfter d' d = true ↔ ¬Double.Comparable d ∨ d' ≤ d := Cost.floatNotAfter_iff
  rw [Nearer, Double.isNaN_eq_false, ← Bool.not_eq_false d'.isNaN, Double.isNaN_eq_false, ← Bool.not_eq_true, hnotAfter,
    not_or, not_not]
  by_cases hd : Double.Comparable d
  · by_cases hd' : Double.Comparable d'
    · rw [← Double.not_lt_iff hd hd', not_not]
      simp [hd, hd']
    · have hle : ¬d' ≤ d := fun h => hd' (Double.le_iff.mp h).1
      simp [hd, hd', hle]
  · have hlt : ¬d < d' := fun h => hd (Double.lt_iff.mp h).1
    simp [hd, hlt]

theorem Sooner.precedes {x y : Float × Nat} (h : Sooner x y) : Precedes x y := by
  obtain ⟨hxy, hid⟩ := h
  cases hyx : Cost.notAfter y.1 x.1 with
  | false => exact .inl (nearer_iff.mpr hyx)
  | true =>
    refine .inr ⟨fun hnearer => ?_, hid hyx⟩
    rw [nearer_iff.mp hnearer] at hxy
    cases hxy

/-! ### The queue of the vertices between start and goal -/

section
variable {σ : Type} {limits : PlannerLimits} {actuators : List (Actuator σ)} {start goal : State} {ps : Profiles}
  {s : Synthesis} {u v : Nat} {limit : Nat}

/-- The entries of the vertices between start and goal, in the order of their ids. -/
def candidates (s : Synthesis) (goal : State) (ps : Profiles) : List (Float × Nat) :=
  (s.graph.values.zipIdx.filter fun x => goalId < x.2).map fun x => (x.1.distance goal ps, x.2)

theorem entries_closest (h : s.graph.value? goalId = some goal) :
    (s.closest ps).entries = (s.candidates goal ps).foldl (fun l x => OpenSet.place x.1 x.2 l) [] := by
  have hfold : ∀ (l : List (State × Nat)) (q : OpenSet Nat Float),
      (l.foldl (fun q x => if x.2 = startId ∨ x.2 = goalId then q else q.push x.2 (x.1.distance goal ps)) q).entries =
        ((l.filter fun x => goalId < x.2).map fun x => (x.1.distance goal ps, x.2)).foldl
          (fun l x => OpenSet.place x.1 x.2 l) q.entries := by
    intro l
    induction l with
    | nil => exact fun q => rfl
    | cons x l ih =>
      obtain ⟨state, id⟩ := x
      intro q
      rw [List.foldl_cons, ih]
      dsimp only
      by_cases hid : goalId < id
      · have hne : ¬(id = startId ∨ id = goalId) := by
          unfold startId goalId at *
          omega
        rw [List.filter_cons_of_pos (by simpa using hid), if_neg hne]
        rfl
      · have heq : id = startId ∨ id = goalId := by
          unfold startId goalId at *
          omega
        rw [List.filter_cons_of_neg (by simpa using hid), if_pos heq]
  unfold closest
  rw [h]
  exact hfold _ _

theorem foldl_place {l : List (Float × Nat)} (hids : l.Pairwise fun x y => x.2 < y.2) {q : List (Float × Nat)}
    (hq : q.Pairwise Sooner) (hlast : ∀ x ∈ q, ∀ y ∈ l, x.2 < y.2) :
    (l.foldl (fun l x => OpenSet.place x.1 x.2 l) q).Pairwise Sooner ∧
      (l.foldl (fun l x => OpenSet.place x.1 x.2 l) q).Perm (q ++ l) := by
  induction l generalizing q with
  | nil => exact ⟨hq, by rw [List.append_nil]; exact .refl q⟩
  | cons y l ih =>
    obtain ⟨hy, hids⟩ := List.pairwise_cons.mp hids
    have hplaced : (OpenSet.place y.1 y.2 q).Perm (y :: q) := OpenSet.perm_place _ _ _
    obtain ⟨hsooner, hperm⟩ := ih hids
      (OpenSet.pairwise_sooner_place y.1 (fun x hx => hlast x hx y List.mem_cons_self) hq) (by
        intro x hx z hz
        rcases List.mem_cons.mp (hplaced.mem_iff.mp hx) with rfl | hx
        · exact hy z hz
        · exact hlast x hx z (List.mem_cons_of_mem y hz))
    exact ⟨hsooner, hperm.trans ((hplaced.append_right l).trans List.perm_middle.symm)⟩

theorem ids_candidates (s : Synthesis) (goal : State) (ps : Profiles) :
    (s.candidates goal ps).map (·.2) = (List.range s.graph.size).filter (goalId < ·) := by
  have hids : s.graph.values.zipIdx.map Prod.snd = List.range s.graph.size := by
    rw [List.zipIdx_map_snd, Graph.length_values, List.range_eq_range']
  rw [← hids, List.filter_map, candidates, List.map_map]
  rfl

theorem length_range_filter (n : Nat) : ((List.range n).filter (goalId < ·)).length = n - 2 := by
  induction n with
  | zero => rfl
  | succ n ih =>
    rw [List.range_succ, List.filter_append, List.length_append, ih, List.filter_singleton]
    by_cases hn : goalId < n <;> simp only [hn, decide_true, decide_false, cond_true, cond_false, List.length_singleton,
      List.length_nil] <;> unfold goalId at hn <;> omega

/-- The queue is sorted, and it holds the vertices between start and goal, each once. -/
theorem closest_spec (ps : Profiles) (h : s.graph.value? goalId = some goal) :
    (s.closest ps).entries.Pairwise Sooner ∧ (s.closest ps).entries.Perm (s.candidates goal ps) ∧
      (s.closest ps).toList.Nodup ∧ (s.closest ps).toList.length = s.graph.size - 2 ∧
      ∀ u, u ∈ (s.closest ps).toList ↔ goalId < u ∧ u < s.graph.size := by
  have hids := ids_candidates s goal ps
  have hlt : ((s.candidates goal ps).map (·.2)).Pairwise (· < ·) := by
    rw [hids]
    exact List.pairwise_lt_range.filter _
  obtain ⟨hsooner, hperm⟩ := foldl_place (List.pairwise_map.mp hlt) (q := []) .nil (by simp)
  rw [List.nil_append, ← entries_closest h] at hperm
  rw [← entries_closest h] at hsooner
  have htoList : (s.closest ps).toList.Perm ((List.range s.graph.size).filter (goalId < ·)) := hids ▸ hperm.map _
  refine ⟨hsooner, hperm, htoList.nodup_iff.mpr (List.nodup_range.filter _), ?_, fun u => ?_⟩
  · rw [htoList.length_eq, length_range_filter]
  · rw [htoList.mem_iff, List.mem_filter, List.mem_range, decide_eq_true_eq]
    exact and_comm

/-- An entry has the distance of the state in its vertex. -/
theorem mem_candidates {x : Float × Nat} {state : State} (hx : x ∈ s.candidates goal ps)
    (hstate : s.graph.value? x.2 = some state) : x.1 = state.distance goal ps := by
  obtain ⟨⟨other, id⟩, hmem, rfl⟩ := List.mem_map.mp hx
  have hother := List.mem_zipIdx_iff_getElem?.mp (List.mem_filter.mp hmem).1
  rw [Graph.getElem?_values] at hother
  obtain rfl := Option.some.inj (hother.symm.trans hstate)
  rfl

/-- A vertex among the first ones of the queue precedes every vertex that is not. -/
theorem precedes_of_chosen (h : s.graph.value? goalId = some goal) (hu : u ∈ (s.closest ps).toList.take limit)
    (hv : goalId < v ∧ v < s.graph.size) (hnot : v ∉ (s.closest ps).toList.take limit) {near far : State}
    (hnear : s.graph.value? u = some near) (hfar : s.graph.value? v = some far) :
    Precedes (near.distance goal ps, u) (far.distance goal ps, v) := by
  obtain ⟨hsooner, hperm, -, -, hmem⟩ := closest_spec ps h
  have hv' : v ∈ (s.closest ps).toList.drop limit := by
    have hv'' := (hmem v).mpr hv
    rw [← List.take_append_drop limit (s.closest ps).toList] at hv''
    exact (List.mem_append.mp hv'').resolve_left hnot
  rw [OpenSet.toList, ← List.map_take] at hu
  rw [OpenSet.toList, ← List.map_drop] at hv'
  obtain ⟨x, hx, rfl⟩ := List.mem_map.mp hu
  obtain ⟨y, hy, rfl⟩ := List.mem_map.mp hv'
  have hdx := mem_candidates (hperm.mem_iff.mp (List.mem_of_mem_take hx)) hnear
  have hdy := mem_candidates (hperm.mem_iff.mp (List.mem_of_mem_drop hy)) hfar
  rw [← List.take_append_drop limit (s.closest ps).entries] at hsooner
  have hxy := Sooner.precedes ((List.pairwise_append.mp hsooner).2.2 x hx y hy)
  rw [Precedes, hdx, hdy] at hxy
  exact hxy

/-! ### The ties -/

section
variable (h : Charted limits actuators start goal ps s)
include h

theorem mem_chosen (hu : u ∈ (s.closest ps).toList.take limit) : goalId < u ∧ u < s.graph.size :=
  ((closest_spec ps h.goal_value).2.2.2.2 u).mp (List.mem_of_mem_take hu)

theorem nodup_chosen (limit : Nat) : ((s.closest ps).toList.take limit).Nodup :=
  (closest_spec ps h.goal_value).2.2.1.sublist (List.take_sublist _ _)

theorem length_chosen (limit : Nat) : ((s.closest ps).toList.take limit).length = min limit (s.graph.size - 2) := by
  rw [List.length_take, (closest_spec ps h.goal_value).2.2.2.1]

theorem successors_withOpportunities (limit u : Nat) :
    (s.withOpportunities limit ps).graph.successors u = s.graph.successors u ++
      if u ∈ (s.closest ps).toList.take limit then [⟨goalId, 0.0, { name := Action.opportunistic }⟩] else [] :=
  Graph.successors_foldl_addEdge (nodup_chosen h limit) (fun _ hid => (mem_chosen h hid).2)
    (Graph.lt_size_of_value? h.goal_value) u

theorem edgeCount_withOpportunities (limit : Nat) :
    (s.withOpportunities limit ps).graph.edgeCount = s.graph.edgeCount + min limit (s.graph.size - 2) := by
  rw [← length_chosen h]
  exact Graph.edgeCount_foldl_addEdge (fun _ hid => (mem_chosen h hid).2) (Graph.lt_size_of_value? h.goal_value)

/-- A vertex that is tied to the goal is reached, so the goal is reached as well. -/
theorem reaches_withOpportunities (hlimit : 0 < limit) (hsize : 2 < s.graph.size) :
    (s.withOpportunities limit ps).graph.Reaches startId goalId := by
  have hpos : 0 < ((s.closest ps).toList.take limit).length := by
    rw [length_chosen h]
    omega
  obtain ⟨u, hu⟩ := List.exists_mem_of_length_pos hpos
  obtain ⟨hgoal, hlt⟩ := mem_chosen h hu
  have hsuccessors := successors_withOpportunities h limit
  have hreach : (s.withOpportunities limit ps).graph.Reaches startId u := by
    refine (h.reached u hlt (Nat.ne_of_gt hgoal)).mono fun x e he => ?_
    rw [hsuccessors]
    exact List.mem_append_left _ he
  refine hreach.step (e := ⟨goalId, 0.0, { name := Action.opportunistic }⟩) ?_
  rw [hsuccessors, if_pos hu]
  exact List.mem_append_right _ (List.mem_singleton_self _)

/-- A way to the goal that meets no vertex twice uses a tie at its end only. -/
theorem walk_of_withOpportunities {es : List (Edge Float)} (hw : (s.withOpportunities limit ps).graph.Walk u es v)
    (hgoal : ∀ e ∈ es, e.target ≠ goalId) : s.graph.Walk u es v := by
  induction es generalizing u with
  | nil => exact hw
  | cons e es ih =>
    have he := hw.1
    rw [successors_withOpportunities h, List.mem_append] at he
    refine ⟨he.resolve_right fun htie => ?_, ih hw.2 fun f hf => hgoal f (List.mem_cons_of_mem e hf)⟩
    split at htie
    · exact hgoal e List.mem_cons_self (congrArg Edge.target (List.mem_singleton.mp htie))
    · cases htie

/-- A way to the goal over the ties follows edges that were explored, to a chosen vertex or to the goal itself. -/
theorem explored_way {es : List (Edge Float)} (hw : (s.withOpportunities limit ps).graph.Walk startId es goalId)
    (hn : (Graph.visited startId es).Nodup) :
    ∃ fs u last, s.graph.Walk startId fs u ∧ (Graph.visited startId fs).Nodup ∧
      (es.map (·.action)).filter (!·.isSynthetic) = (fs.map (·.action)).filter (!·.isSynthetic) ∧
      s.graph.value? u = some last ∧ (u ∈ (s.closest ps).toList.take limit ∨ last = goal) := by
  rcases es.eq_nil_or_concat with rfl | ⟨fs, e, rfl⟩
  · exact absurd hw start_ne_goal
  · rw [List.concat_eq_append] at hw hn ⊢
    obtain ⟨u, hfs, he, htarget⟩ := Graph.walk_concat_iff.mp hw
    have hn' := hn
    rw [Graph.visited_concat, htarget] at hn'
    obtain ⟨hnodup, -, hdisjoint⟩ := List.nodup_append'.mp hn'
    have hfs' : s.graph.Walk startId fs u := walk_of_withOpportunities h hfs fun f hf hgoal =>
      List.disjoint_singleton.mp hdisjoint (List.mem_cons_of_mem _ (List.mem_map.mpr ⟨f, hf, hgoal⟩))
    rw [successors_withOpportunities h, List.mem_append] at he
    -- The last edge was explored, or it ties a chosen vertex to the goal.
    rcases he with he | htie
    · exact ⟨fs ++ [e], goalId, goal, htarget ▸ hfs'.concat he, hn, rfl, h.goal_value, .inr rfl⟩
    · split at htie
      · rename_i hu
        obtain rfl := List.mem_singleton.mp htie
        obtain ⟨last, hvalue⟩ := Graph.exists_value? (mem_chosen h hu).2
        refine ⟨fs, u, last, hfs', hnodup, ?_, hvalue, .inl hu⟩
        rw [List.map_append, List.filter_append, List.map_singleton, List.filter_singleton, isSynthetic_opportunistic]
        exact List.append_nil _
      · cases htie

end

/-- Without the flag nothing was given up. -/
theorem overflowed_of_unset {w : σ} (h : (build limits actuators start goal ps w).1.hasGoal = false) :
    (build limits actuators start goal ps w).1.overflowed = false := by
  refine Bool.eq_false_iff.mpr fun hover => Bool.eq_false_iff.mp h ?_
  exact explored_grown.finished_goal.1.mpr (.inr hover)

/-- Without the flag no shortcut was added, so the built graph is the explored one. -/
theorem charted_of_unset {w : σ} (h : (build limits actuators start goal ps w).1.hasGoal = false) :
    Charted limits actuators start goal ps (build limits actuators start goal ps w).1 := by
  have hs : Charted limits actuators start goal ps (explored limits actuators start goal ps w).1 := explored_grown.charted
  have hbuild : (build limits actuators start goal ps w).1 =
      finished start goal ps (explored limits actuators start goal ps w).1 := rfl
  rw [hbuild] at h ⊢
  rcases finished_cases start goal ps (Graph.lt_size_of_value? hs.start_value) (Graph.lt_size_of_value? hs.goal_value) with
    heq | ⟨-, -, ⟨cost, -, heq⟩ | heq⟩
  · rwa [heq]
  · rw [heq] at h
    cases h
  · rw [heq] at h
    cases h

end
end Synthesis

namespace Planner
open Synthesis

/-- Where no path to the goal was found, the vertices closest to it are tied to it, as many as the limit allows and as
    there are. A vertex that is chosen precedes every vertex that is not. If there is any, and no utility is negative,
    then the following search finds a path, and the plan is what actuators proposed on a way to one of the chosen states
    or to the state of the goal. -/
theorem createPlan_opportunistic {σ : Type} (limits : PlannerLimits) (actuators : List (Actuator σ)) (start goal : State)
    (ps : Profiles) (w : σ) (hunset : (build limits actuators start goal ps w).1.hasGoal = false)
    (hlimit : 0 < limits.opportunistic) :
    let s := (build limits actuators start goal ps w).1
    let chosen := (s.closest ps).toList.take limits.opportunistic
    let t := s.withOpportunities limits.opportunistic ps
    (chosen.length = min limits.opportunistic (s.graph.size - 2) ∧ chosen.Nodup ∧
      ∀ u ∈ chosen, goalId < u ∧ u < s.graph.size) ∧
    (∀ u ∈ chosen, ∀ v, goalId < v → v < s.graph.size → v ∉ chosen → ∀ near far,
      s.graph.value? u = some near → s.graph.value? v = some far →
        Precedes (near.distance goal ps, u) (far.distance goal ps, v)) ∧
    (t.graph.values = s.graph.values ∧
      t.graph.edgeCount = s.graph.edgeCount + min limits.opportunistic (s.graph.size - 2) ∧
      ∀ u, t.graph.successors u =
        s.graph.successors u ++ if u ∈ chosen then [⟨goalId, 0.0, { name := Action.opportunistic }⟩] else []) ∧
    (2 < s.graph.size → Affordable limits s.asked →
      ∃ path actions, t.search ps = .found path actions ∧ t.graph.IsPath startId goalId path actions ∧
        ∃ es u last, s.graph.Walk startId es u ∧ (Graph.visited startId es).Nodup ∧
          (createPlan limits actuators start goal ps w).1 = some ((es.map (·.action)).filter (!·.isSynthetic)) ∧
          s.graph.value? u = some last ∧ (u ∈ chosen ∨ last = goal)) := by
  intro s chosen t
  have hs : Charted limits actuators start goal ps s := charted_of_unset hunset
  refine ⟨⟨length_chosen hs _, nodup_chosen hs _, fun u hu => mem_chosen hs hu⟩, ?_, ⟨?_, ?_, ?_⟩, ?_⟩
  · intro u hu v hv hv_lt hnot near far hnear hfar
    exact precedes_of_chosen hs.goal_value hu ⟨hv, hv_lt⟩ hnot hnear hfar
  · exact Graph.values_congr (value?_withOpportunities _)
  · exact edgeCount_withOpportunities hs _
  · exact successors_withOpportunities hs _
  · intro hsize hanswers
    have hroute : s.route limits ps = t.search ps := by
      rw [route, hunset, if_neg Bool.false_ne_true, if_pos hlimit]
    have hsearch : Searchable limits actuators start goal ps [] s := explored_grown.charted.searchable
    have hreach : t.graph.Reaches startId goalId := reaches_withOpportunities hs hlimit hsize
    obtain ⟨es, hw, hn, hfound⟩ := (hsearch.withOpportunities limits.opportunistic).search_found hanswers hreach
    obtain ⟨fs, u, last, hfs, hnodup, hactions, hvalue, hends⟩ := explored_way hs hw hn
    have hplan : planOf (s.route limits ps) = (fs.map (·.action)).filter (!·.isSynthetic) := by
      rw [hroute, hfound, ← hactions]
      rfl
    exact ⟨_, _, hfound, hw.isPath hn, fs, u, last, hfs, hnodup,
      plan?_eq_some_iff.mpr ⟨overflowed_of_unset hunset, hplan⟩, hvalue, hends⟩

theorem createPlan_opportunistic_faller :
    let s := (build ⟨10, 5, 1⟩ [faller] there here .empty ()).1
    s.hasGoal = false ∧ 0 < 1 ∧ ((s.closest .empty).toList.take 1).length = 1 ∧
      ∃ path actions, (s.withOpportunities 1 .empty).search .empty = .found path actions ∧
        ∃ es u last, s.graph.Walk startId es u ∧ [{ name := "fall" }] = (es.map (·.action)).filter (!·.isSynthetic) ∧
          s.graph.value? u = some last ∧ (u ∈ (s.closest .empty).toList.take 1 ∨ last = here) := by
  intro s
  have hbuild : s = finished there here .empty fallen := build_faller
  have hunset : s.hasGoal = false := by
    rw [hbuild]
    decide +kernel
  have hsize : s.graph.size = 3 := by
    rw [hbuild]
    decide +kernel
  have hlimit : 0 < 1 := Nat.one_pos
  obtain ⟨⟨hlength, -⟩, -, -, hplan⟩ := createPlan_opportunistic ⟨10, 5, 1⟩ [faller] there here .empty () hunset hlimit
  obtain ⟨path, actions, hfound, -, es, u, last, hw, -, hactions, hvalue, hends⟩ :=
    hplan (hsize ▸ Nat.lt_succ_self 2) acceptable_faller.affordable
  rw [createPlan_faller, Option.some.injEq] at hactions
  refine ⟨hunset, hlimit, ?_, path, actions, hfound, es, u, last, hw, hactions, hvalue, hends⟩
  rw [hlength]
  exact congrArg (fun n => min 1 (n - 2)) hsize

end Planner
end Intendant
