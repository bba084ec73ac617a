import Mathlib.Data.List.Forall2
import Intendant.Proofs.Planner.Edges
import Intendant.Proofs.Planner.Plan
import Intendant.Proofs.Planner.Structure

/-! # Breadth-first exploration

Vertices are taken up in the order of their ids, so an edge into a vertex leaves no earlier vertex than some edge into
each vertex before it (`Layered`). By induction on walks no vertex is further away from the start than a later one
(`build_hops_mono`). Where the graph does not fill up, every actuator was asked about every vertex but the goal; with
actuators that have no memory the vertices are then the states that chains of proposals lead to, and the edges of a
vertex are the candidates for its state (`build_breadthFirst`). -/

namespace Intendant

/-- The answers of the actuator do not depend on its memory. -/
def Actuator.Pure {σ : Type} (a : Actuator σ) : Prop :=
  ∀ state goal ps w w', (a.nextState state goal ps w).1 = (a.nextState state goal ps w').1

/-- The candidates of an actuator for a state that are looked at. -/
def Actuator.offers {σ : Type} (limits : PlannerLimits) (goal : State) (ps : Profiles) (w : σ) (state : State)
    (a : Actuator σ) : List Candidate :=
  Asked.looked limits ⟨0, 0, state, (a.nextState state goal ps w).1⟩

namespace Synthesis

section
variable {σ : Type} (limits : PlannerLimits) (actuators : List (Actuator σ)) (start goal : State) (ps : Profiles) (w : σ)

/-- The states that chains of proposals lead to from the start without meeting the goal. -/
inductive Proposable : State → Prop
  | start : Proposable start
  | step {state : State} {a : Actuator σ} {c : Candidate} (h : Proposable state) (ha : a ∈ actuators)
      (hc : c ∈ a.offers limits goal ps w state) (hne : c.state ≠ goal) : Proposable c.state

end

/-- The edge carries the candidate to the newest vertex with its state. -/
def Carries (g : Graph State Float) (c : Candidate) (e : Edge Float) : Prop :=
  g.newest? c.state = some e.target ∧ e.utility = c.utility ∧ e.action = c.action

/-- Where an edge leads to a vertex behind the goal, edges that leave no later vertex lead to the vertices before it. -/
def Layered (s : Synthesis) : Prop :=
  ∀ i u, goalId < i → ∀ e ∈ s.graph.successors u, i < e.target → ∃ v ≤ u, ∃ f ∈ s.graph.successors v, f.target = i

section
variable {σ : Type} {limits : PlannerLimits} {actuators : List (Actuator σ)} {start goal : State} {ps : Profiles}
  {s t : Synthesis} {c : Candidate} {q : Asked} {e : Edge Float} {u v i j : Nat}

/-! ### The order of the vertices -/

theorem mem_successors_of_takeIn (hv : v < s.graph.size) (hgoal : goalId < s.graph.size)
    (he : e ∈ (takeIn limits goal ps v s c).graph.successors u) :
    e ∈ s.graph.successors u ∨ u = v ∨ e = arrival := by
  rcases takeIn_cases limits goal ps v s c with ⟨t, -, heq⟩ | heq | ⟨hnew, hroom⟩
  · rw [heq] at he
    exact (Graph.mem_successors_addEdge.mp he).imp_right fun ⟨_, _, hu, _⟩ => .inl hu
  · rw [heq] at he
    exact .inl he
  · rcases (mem_successors_takeIn_fresh hnew hroom hv hgoal).mp he with he | ⟨hu, -⟩ | ⟨-, -, he⟩
    · exact .inl he
    · exact .inr (.inl hu)
    · exact .inr (.inr he)

/-- Every vertex behind the goal has an edge from a vertex that was asked about. -/
theorem Charted.entered (h : Charted limits actuators start goal ps s) (hi : goalId < i) (hi_lt : i < s.graph.size) :
    ∃ q ∈ s.asked, ∃ e ∈ s.graph.successors q.vertex, e.target = i := by
  have hreach := h.reached i hi_lt (Nat.ne_of_gt hi)
  obtain ⟨u, e, he, htarget⟩ := hreach.last_edge (Nat.ne_of_lt (Nat.zero_lt_of_lt hi))
  rcases h.edge u e he with ⟨q, hq, -, -, rfl, -⟩ | ⟨-, rfl⟩
  · exact ⟨q, hq, e, he, htarget⟩
  · exact absurd htarget (Nat.ne_of_lt hi)

theorem Layered.taken (h : Layered s) (hs : Charted limits actuators start goal ps s) (hq : q ∈ s.asked)
    (hlatest : ∀ r ∈ s.asked, r.vertex ≤ q.vertex) (hc : c ∈ q.looked limits) :
    Layered (takeIn limits goal ps q.vertex s c) := by
  intro i u hi e he hlt
  have htaken := hs.taken hq hc
  rcases mem_successors_of_takeIn (Graph.lt_size_of_value? (hs.asked q hq).2.2)
    (Graph.lt_size_of_value? hs.goal_value) he with hold | rfl | rfl
  · obtain ⟨v, hv, f, hf, htarget⟩ := h i u hi e hold hlt
    exact ⟨v, hv, f, mem_successors_takeIn hf, htarget⟩
  -- A new edge leaves the vertex asked about last, and each vertex has an edge from one that was asked about.
  · obtain ⟨r, hr, f, hf, htarget⟩ := htaken.entered hi (Nat.lt_trans hlt (htaken.target_lt he))
    exact ⟨r.vertex, hlatest r (asked_takeIn ▸ hr), f, hf, htarget⟩
  · exact absurd hlt (Nat.lt_asymm hi)

theorem Scheduled.layered (h : Scheduled limits actuators start goal ps s) : Layered s := by
  refine (h.induction (P := fun s => Charted limits actuators start goal ps s ∧ Layered s) ⟨charted_initial, ?_⟩ ?_ ?_).2
  · intro i u _ e he
    simp [Synthesis.initial] at he
  · exact fun s q hs honest vertex state => ⟨hs.1.ask honest vertex state, hs.2⟩
  · exact fun s q c hs hq hlatest hc => ⟨hs.1.taken hq hc, hs.2.taken hs.1 hq hlatest hc⟩

/-- A walk to a vertex gives one that is no longer to every vertex before it. -/
theorem Layered.walk_le (h : Layered s) (hgoal : s.graph.successors goalId = []) {es : List (Edge Float)}
    (hw : s.graph.Walk startId es j) (hj : j ≠ goalId) (hi : i ≠ goalId) (hij : i ≤ j) :
    ∃ fs, s.graph.Walk startId fs i ∧ fs.length ≤ es.length := by
  induction es using List.reverseRecOn generalizing i j with
  | nil =>
    cases hw
    exact ⟨[], (Nat.le_zero.mp hij).symm, Nat.le_refl _⟩
  | append_singleton es e ih =>
    obtain ⟨u, hes, he, rfl⟩ := Graph.walk_concat_iff.mp hw
    rcases Nat.eq_zero_or_pos i with rfl | hpos
    · exact ⟨[], rfl, Nat.zero_le _⟩
    · rcases Nat.eq_or_lt_of_le hij with rfl | hlt
      · exact ⟨es ++ [e], hw, Nat.le_refl _⟩
      -- The walk without its last edge gives one to the vertex that the edge into `i` leaves.
      · have hi_gt : goalId < i := Nat.lt_of_le_of_ne hpos hi.symm
        obtain ⟨v, hv, f, hf, rfl⟩ := h i u hi_gt e he hlt
        obtain ⟨fs, hfs, hle⟩ := ih hes (Graph.ne_of_mem_successors hgoal he) (Graph.ne_of_mem_successors hgoal hf) hv
        refine ⟨fs ++ [f], hfs.concat hf, ?_⟩
        simpa using hle

/-- A walk from the start to a vertex of the exploration does not use what finishing adds. -/
theorem Finishes.walk (h : Finishes start goal ps s t) (hgoal : t.graph.successors goalId = [])
    {es : List (Edge Float)} (hw : t.graph.Walk startId es j) (hj : j ≠ goalId) (hj_lt : j < s.graph.size) :
    s.graph.Walk startId es j := by
  induction es using List.reverseRecOn generalizing j with
  | nil => exact hw
  | append_singleton es e ih =>
    obtain ⟨u, hes, he, rfl⟩ := Graph.walk_concat_iff.mp hw
    have hu_ne : u ≠ goalId := Graph.ne_of_mem_successors hgoal he
    by_cases hu : u < s.graph.size
    · obtain ⟨extra, heq, hextra⟩ := h.successors u hu
      rw [heq] at he
      rcases List.mem_append.mp he with he | he
      · exact (ih hes hu_ne hu).concat he
      · rcases hextra with rfl | ⟨-, cost, rfl⟩
        · exact absurd he List.not_mem_nil
        · obtain rfl := List.mem_singleton.mp he
          exact absurd hj_lt (Nat.lt_irrefl _)
    -- The only other vertex is the middle of a shortcut, from which an edge leads to the goal alone.
    · obtain ⟨-, -, -, heq, -⟩ := h.middle u (Nat.not_lt.mp hu) (Graph.lt_size_of_mem_successors he)
      rw [heq] at he
      obtain rfl := List.mem_singleton.mp he
      exact absurd rfl hj

/-- The vertices of an exploration stand in the order of their distance from the start. -/
theorem build_hops_mono (limits : PlannerLimits) (actuators : List (Actuator σ)) (start goal : State) (ps : Profiles)
    (w : σ) (hi : goalId < i) (hij : i < j)
    (hj : j < (explored limits actuators start goal ps w).1.graph.size) :
    ∃ m n, (build limits actuators start goal ps w).1.graph.Hops startId i m ∧
      (build limits actuators start goal ps w).1.graph.Hops startId j n ∧ m ≤ n := by
  have hscheduled : Scheduled limits actuators start goal ps (explored limits actuators start goal ps w).1 :=
    explored_scheduled.1
  have hcharted := hscheduled.grown.charted
  have hs := build_finishes limits actuators start goal ps w
  generalize (explored limits actuators start goal ps w).1 = before at *
  generalize (build limits actuators start goal ps w).1 = s at *
  have hgoal : s.graph.successors goalId = [] := hs.successors_goal hcharted
  have hmono : ∀ {es k}, before.graph.Walk startId es k → s.graph.Walk startId es k :=
    fun hw => hw.mono fun _ _ he => hs.mem_successors he
  have hreach : ∀ k, goalId < k → k < before.graph.size → s.graph.Reaches startId k :=
    fun k hk hk_lt => (hcharted.reached k hk_lt (Nat.ne_of_gt hk)).mono fun _ _ he => hs.mem_successors he
  obtain ⟨m, hm⟩ := (hreach i hi (Nat.lt_trans hij hj)).exists_hops
  obtain ⟨n, hn⟩ := (hreach j (Nat.lt_trans hi hij) hj).exists_hops
  refine ⟨m, n, hm, hn, ?_⟩
  obtain ⟨⟨es, hw, rfl⟩, -⟩ := hn
  have hj_ne := Nat.ne_of_gt (Nat.lt_trans hi hij)
  -- A shortest walk to the later vertex gives a walk to the earlier one that is no longer.
  obtain ⟨fs, hfs, hle⟩ := hscheduled.layered.walk_le hcharted.successors_goal (hs.walk hgoal hw hj_ne hj) hj_ne
    (Nat.ne_of_gt hi) (Nat.le_of_lt hij)
  exact Nat.le_trans (hm.2 fs (hmono hfs)) hle

/-! ### Explorations with room left -/

theorem Honest.looked_eq (h : Honest actuators goal ps q) (hpure : ∀ a ∈ actuators, a.Pure) (limits : PlannerLimits)
    (w : σ) :
    ∃ a, actuators[q.actuator]? = some a ∧ a ∈ actuators ∧ q.looked limits = a.offers limits goal ps w q.state := by
  obtain ⟨a, w', ha, hanswer⟩ := h
  have hmem := List.mem_of_getElem? ha
  refine ⟨a, ha, hmem, ?_⟩
  rw [Actuator.offers, hpure a hmem _ _ _ w w', hanswer]
  rfl

/-- As many questions as actuators and vertices without the goal are one for each actuator about every vertex. -/
theorem Scheduled.all_asked (h : Scheduled limits actuators start goal ps s)
    (hasked : s.asked.size = actuators.length * (s.graph.size - 1)) (hu : u ≠ goalId) (hlt : u < s.graph.size) :
    (s.asked.toList.filter (·.vertex = u)).map (·.actuator) = List.range actuators.length := by
  obtain ⟨round, rfl⟩ := exists_vertexOfRound hu
  have hround : round + 1 ≤ s.graph.size - 1 := by
    have hgoal := h.grown.goal_lt
    unfold vertexOfRound goalId startId at *
    split at hlt <;> omega
  have hall : actuators.length ≤ s.asked.size - actuators.length * round := by
    refine Nat.le_sub_of_add_le' ?_
    rw [hasked, ← Nat.mul_succ]
    exact Nat.mul_le_mul_left _ hround
  rw [h.actuators_asked round, Nat.min_eq_left hall]

/-- Where every actuator was asked about every vertex, the proposals for a vertex are the candidates of all actuators
    for its state. -/
theorem Scheduled.proposals_eq (h : Scheduled limits actuators start goal ps s)
    (hasked : s.asked.size = actuators.length * (s.graph.size - 1)) (hpure : ∀ a ∈ actuators, a.Pure) (w : σ)
    (hu : u ≠ goalId) {state : State} (hstate : s.graph.value? u = some state) :
    s.proposals limits u = actuators.flatMap (·.offers limits goal ps w state) := by
  have hactuators := h.all_asked hasked hu (Graph.lt_size_of_value? hstate)
  have hlooked : (s.asked.toList.filter (·.vertex = u)).map (·.looked limits) =
      actuators.map (·.offers limits goal ps w state) := by
    have hlength := congrArg List.length hactuators
    rw [List.length_map, List.length_range] at hlength
    -- Place by place: the question at a place went to the actuator at that place, with the state of the vertex.
    refine List.ext_getElem (by rw [List.length_map, List.length_map, hlength]) fun i hi _ => ?_
    rw [List.length_map] at hi
    have hactuator := List.getElem_of_eq hactuators (by rwa [List.length_map])
    rw [List.getElem_map, List.getElem_range] at hactuator
    obtain ⟨hq, hvertex⟩ := List.mem_filter.mp (List.getElem_mem hi)
    rw [List.getElem_map, List.getElem_map]
    generalize (s.asked.toList.filter (·.vertex = u))[i] = q at *
    obtain ⟨honest, -, hvalue⟩ := h.grown.charted.asked q (Array.mem_toList_iff.mp hq)
    obtain rfl : state = q.state := by
      rw [of_decide_eq_true hvertex, hstate] at hvalue
      exact Option.some.inj hvalue
    obtain ⟨a, ha, -, heq⟩ := honest.looked_eq hpure limits w
    rw [hactuator] at ha
    obtain ⟨_, rfl⟩ := List.getElem?_eq_some_iff.mp ha
    exact heq
  rw [proposals, List.flatMap_def, hlooked, List.flatMap_def]

/-- Where the graph has room, every proposal has its edge. -/
theorem Accounted.forall₂_carries {offered : Nat → List Candidate} (h : Accounted limits goal ps s.graph offered)
    (hroom : s.graph.size < limits.states) (u : Nat) :
    List.Forall₂ (Carries s.graph) (offered u) ((offered u).filterMap (carrying? s.graph)) := by
  have hknown := h.known hroom u
  generalize offered u = cs at hknown
  induction cs with
  | nil => exact .nil
  | cons c cs ih =>
    obtain ⟨t, ht⟩ := Option.ne_none_iff_exists'.mp (hknown c List.mem_cons_self)
    rw [List.filterMap_cons_some (carrying?_of_newest? ht)]
    exact .cons ⟨ht, rfl, rfl⟩ (ih fun d hd => hknown d (List.mem_cons_of_mem c hd))

/-- Every state in a vertex other than the goal was proposed by a chain from the start. -/
theorem Charted.proposable (h : Charted limits actuators start goal ps s) (hpure : ∀ a ∈ actuators, a.Pure) (w : σ)
    (hu : u ≠ goalId) {state : State} (hstate : s.graph.value? u = some state) :
    Proposable limits actuators start goal ps w state := by
  have hreach := h.reached u (Graph.lt_size_of_value? hstate) hu
  -- Along a walk from the start; what does not end in the goal was proposed.
  refine hreach.closed (P := fun u => u ≠ goalId → ∀ state, s.graph.value? u = some state →
    Proposable limits actuators start goal ps w state) ?_ ?_ hu state hstate
  · rintro - state hstate
    rw [h.start_value] at hstate
    exact Option.some.inj hstate ▸ .start
  · intro u ih e he htarget state hstate
    have hu : u ≠ goalId := Graph.ne_of_mem_successors h.successors_goal he
    by_cases hstart : e.target = startId
    · rw [hstart, h.start_value] at hstate
      exact Option.some.inj hstate ▸ .start
    · have hbehind : goalId < e.target := Nat.lt_of_le_of_ne (Nat.pos_of_ne_zero hstart) htarget.symm
      rcases h.edge u e he with ⟨q, hq, c, hc, rfl, hvalue, -⟩ | ⟨-, rfl⟩
      · obtain ⟨honest, -, hq_value⟩ := h.asked q hq
        obtain ⟨a, -, ha, heq⟩ := honest.looked_eq hpure limits w
        obtain rfl : c.state = state := Option.some.inj (hvalue.symm.trans hstate)
        refine .step (ih hu q.state hq_value) ha (heq ▸ hc) fun hgoal => ?_
        exact h.distinct e.target goalId c.state hbehind hbehind hstate (hgoal ▸ h.goal_value)
      · exact absurd rfl htarget

/-- An exploration that ends with room left holds every state that a chain of proposals leads to. -/
theorem Scheduled.exists_of_proposable (h : Scheduled limits actuators start goal ps s)
    (hroom : s.graph.size < limits.states) (hasked : s.asked.size = actuators.length * (s.graph.size - 1))
    (hpure : ∀ a ∈ actuators, a.Pure) {w : σ} {state : State}
    (hstate : Proposable limits actuators start goal ps w state) :
    ∃ u, u ≠ goalId ∧ s.graph.value? u = some state := by
  have hs := h.grown.charted
  induction hstate with
  | start => exact ⟨startId, start_ne_goal, hs.start_value⟩
  | @step state a c _ ha hc hne ih =>
    obtain ⟨u, hu, hvalue⟩ := ih
    have hproposed : c ∈ s.proposals limits u := by
      rw [h.proposals_eq hasked hpure w hu hvalue]
      exact List.mem_flatMap.mpr ⟨a, ha, hc⟩
    obtain ⟨t, ht⟩ := Option.ne_none_iff_exists'.mp (h.grown.accounted.known hroom u c hproposed)
    have ht_value := Graph.value?_of_newest? ht
    refine ⟨t, ?_, ht_value⟩
    rintro rfl
    exact hne (Option.some.inj (ht_value.symm.trans hs.goal_value))

/-- Breadth-first exploration is ordered and complete. No vertex of the exploration is more hops away from the start
    than a later one. An exploration by actuators without memory that ends with room left holds exactly the states that
    chains of proposals lead to from the start without meeting the goal. Then what the actuators offer for the state of
    a vertex is what was looked at, and every offer has one edge, in the order of the offers, between the one that a
    better vertex has into the goal and the one that a shortcut may add to the start. -/
theorem build_breadthFirst (limits : PlannerLimits) (actuators : List (Actuator σ)) (start goal : State) (ps : Profiles)
    (w : σ) (hpure : ∀ a ∈ actuators, a.Pure) :
    let before := (explored limits actuators start goal ps w).1
    let s := (build limits actuators start goal ps w).1
    (∀ i j, goalId < i → i < j → j < before.graph.size →
      ∃ m n, s.graph.Hops startId i m ∧ s.graph.Hops startId j n ∧ m ≤ n) ∧
    (before.graph.size < limits.states →
      (∀ state, (∃ u, u ≠ goalId ∧ u < before.graph.size ∧ s.graph.value? u = some state) ↔
        Proposable limits actuators start goal ps w state) ∧
      ∀ u state, u ≠ goalId → u < before.graph.size → s.graph.value? u = some state →
        s.proposals limits u = actuators.flatMap (·.offers limits goal ps w state) ∧
        ∃ carried shortcut, s.graph.successors u = entry goal ps before.graph u ++ carried ++ shortcut ∧
          List.Forall₂ (Carries before.graph) (s.proposals limits u) carried ∧
          (shortcut = [] ∨
            u = startId ∧ ∃ cost, shortcut = [⟨before.graph.size, cost, { name := Action.done }⟩])) := by
  intro before s
  obtain ⟨hscheduled, hcomplete⟩ : Scheduled limits actuators start goal ps before ∧
      (before.graph.size < limits.states → before.asked.size = actuators.length * (before.graph.size - 1)) :=
    explored_scheduled
  have hs : Finishes start goal ps before s := build_finishes limits actuators start goal ps w
  refine ⟨fun i j hi hij hj => build_hops_mono limits actuators start goal ps w hi hij hj, fun hroom => ?_⟩
  have hasked := hcomplete hroom
  refine ⟨fun state => ⟨?_, fun hstate => ?_⟩, fun u state hu hlt hstate => ?_⟩
  · rintro ⟨u, hu, hlt, hstate⟩
    rw [hs.value u hlt] at hstate
    exact hscheduled.grown.charted.proposable hpure w hu hstate
  · obtain ⟨u, hu, hvalue⟩ := hscheduled.exists_of_proposable hroom hasked hpure hstate
    have hlt := Graph.lt_size_of_value? hvalue
    exact ⟨u, hu, hlt, (hs.value u hlt).trans hvalue⟩
  · rw [hs.value u hlt] at hstate
    have hproposals : s.proposals limits u = before.proposals limits u := by
      rw [proposals, proposals, hs.asked]
    obtain ⟨shortcut, hsuccessors, hshortcut⟩ := hs.successors u hlt
    rw [hproposals]
    refine ⟨hscheduled.proposals_eq hasked hpure w hu hstate, (before.proposals limits u).filterMap (carrying? before.graph),
      shortcut, ?_, hscheduled.grown.accounted.forall₂_carries hroom u, hshortcut⟩
    rw [hsuccessors, hscheduled.grown.successors_eq]

end

/-- A state between the one beyond the goal and the goal. -/
def halfway : State := { intent := { key := "h", objectives := KeyMap.empty.insert "x" 3.0 } }

/-- An actuator that proposes two states and the goal for the state beyond the goal, and nothing for any other state. -/
def fork : Actuator Unit where
  name := "fork"
  group := "test"
  nextState state goal _ w :=
    (.ok (if state = Planner.beyond then [⟨halfway, 2.0, { name := "left" }⟩, ⟨here, 3.0, { name := "right" }⟩,
      ⟨goal, 1.0, { name := "straight" }⟩] else []), w)
  perform _ _ w := (.ok (), w)
  effect _ _ w := (.ok (), w)

/-- The question about a vertex, as the actuator answers it. -/
def forked (u : Nat) (state : State) : Asked := ⟨0, u, state, (fork.nextState state there .empty ()).1⟩

/-- What the fork's answers to some questions make of the initial graph. -/
def forkedBy (questions : List Asked) : Synthesis :=
  questions.foldl (answered ⟨10, 5, 0⟩ there .empty) (initial Planner.beyond there)

theorem explored_fork : (explored ⟨10, 5, 0⟩ [fork] Planner.beyond there .empty ()).1 =
    forkedBy [forked startId Planner.beyond, forked 2 halfway, forked 3 here] := by
  rw [explored, explore, dif_pos (by decide)]
  change (explore _ there .empty [fork] (following startId) (forkedBy [forked startId Planner.beyond]) ()).1 = _
  rw [explore, dif_pos (by decide +kernel)]
  change (explore _ there .empty [fork] (following 2)
    (forkedBy [forked startId Planner.beyond, forked 2 halfway]) ()).1 = _
  rw [explore, dif_pos (by decide +kernel)]
  change (explore _ there .empty [fork] (following 3)
    (forkedBy [forked startId Planner.beyond, forked 2 halfway, forked 3 here]) ()).1 = _
  rw [explore, dif_neg (by decide +kernel)]

theorem build_breadthFirst_fork :
    let before := (explored ⟨10, 5, 0⟩ [fork] Planner.beyond there .empty ()).1
    let s := (build ⟨10, 5, 0⟩ [fork] Planner.beyond there .empty ()).1
    (∀ a ∈ [fork], a.Pure) ∧ before.graph.size = 4 ∧
      (∃ m n, s.graph.Hops startId 2 m ∧ s.graph.Hops startId 3 n ∧ m ≤ n) ∧
      (∃ u, u ≠ goalId ∧ u < before.graph.size ∧ s.graph.value? u = some here) := by
  intro before s
  have hpure : ∀ a ∈ [fork], a.Pure := by
    intro a ha
    obtain rfl := List.mem_singleton.mp ha
    exact fun _ _ _ _ _ => rfl
  have hsize : before.graph.size = 4 := by
    have hbefore : before = forkedBy [forked startId Planner.beyond, forked 2 halfway, forked 3 here] := explored_fork
    rw [hbefore]
    decide +kernel
  obtain ⟨hordered, hcomplete⟩ := build_breadthFirst ⟨10, 5, 0⟩ [fork] Planner.beyond there .empty () hpure
  have hproposable : Proposable ⟨10, 5, 0⟩ [fork] Planner.beyond there .empty () here := by
    refine .step (c := ⟨here, 3.0, { name := "right" }⟩) .start (List.mem_singleton_self _) ?_ (by decide)
    decide +kernel
  refine ⟨hpure, hsize, hordered 2 3 (by decide) (by decide) (hsize ▸ by decide), ?_⟩
  exact ((hcomplete (hsize ▸ by decide)).1 here).mpr hproposable

end Synthesis
end Intendant
