import Intendant.Proofs.Planner.BreadthFirst
import Intendant.Proofs.Planner.Mirrored

/-! # Failing actuators

An actuator that fails harms nobody else. Its failures could as well be empty answers, as an actuator that hides them is
a stand-in for it (`build_mirrored`). Where it always fails it could as well be left out: the exploration with it and
the one without it ask different questions, with different numbers, but they build one graph (`Agrees`), as long as the
other actuators do not notice how often they are asked. What is performed and what is brought up to date is told to every
actuator once, whatever the others answer; to see it, the actuators keep notes beside their memory. -/

namespace Intendant

/-! ### Actuators that hide failures and actuators that keep notes -/

section
variable {σ α : Type}

/-- The actuator with its failures hidden behind empty answers. -/
def Actuator.hushed (a : Actuator σ) : Actuator σ where
  name := a.name
  group := a.group
  nextState state goal ps w :=
    let (answer, w) := a.nextState state goal ps w
    (.ok (candidatesOf answer), w)
  perform := a.perform
  effect := a.effect

/-- A call that an actuator gets, with its number and the arguments. -/
inductive Told where
  | propose (actuator : Nat) (state goal : State) (ps : Profiles)
  | perform (actuator : Nat) (state : State) (plan : List Action)
  | effect (actuator : Nat) (state : State) (ps : Profiles)

/-- A call that is noted beside the memory. -/
def Told.noted (told : Told) (call : σ → α × σ) (w : List Told × σ) : α × List Told × σ :=
  let (answer, memory) := call w.2
  (answer, w.1 ++ [told], memory)

/-- The actuator, where it notes every call that it gets. -/
def Actuator.noting (a : Actuator σ) (index : Nat) : Actuator (List Told × σ) where
  name := a.name
  group := a.group
  nextState state goal ps := Told.noted (.propose index state goal ps) (a.nextState state goal ps)
  perform state plan := Told.noted (.perform index state plan) (a.perform state plan)
  effect state ps := Told.noted (.effect index state ps) (a.effect state ps)

/-- The actuators, where each notes every call with its place from `index` on. -/
def noting (actuators : List (Actuator σ)) (index : Nat) : List (Actuator (List Told × σ)) :=
  (actuators.zipIdx index).map fun (a, i) => a.noting i

end

namespace Synthesis

/-! ### Left out -/

/-- Two syntheses that differ in what was asked, if at all. -/
def Agrees (r s : Synthesis) : Prop := r = s.withAsked r.asked

section
variable {σ : Type}

/-- The second list leaves out actuators of the first one, whose numbers begin with `index`. It leaves out some that
    `P` holds for and keeps only actuators without memory. -/
inductive LeftOut (P : Nat → Prop) : (index : Nat) → List (Actuator σ) → List (Actuator σ) → Prop
  | nil {index : Nat} : LeftOut P index [] []
  | keep {index : Nat} {a : Actuator σ} {as bs : List (Actuator σ)} (hpure : a.Pure) (h : LeftOut P (index + 1) as bs) :
      LeftOut P index (a :: as) (a :: bs)
  | drop {index : Nat} {a : Actuator σ} {as bs : List (Actuator σ)} (hindex : P index) (h : LeftOut P (index + 1) as bs) :
      LeftOut P index (a :: as) bs

/-- The actuators that `P` holds for have only failed. -/
def Failing (P : Nat → Prop) (s : Synthesis) : Prop :=
  ∀ q ∈ s.asked, P q.actuator → ∃ error, q.answer = .error error

variable {P : Nat → Prop} {limits : PlannerLimits} {start goal : State} {ps : Profiles} {as bs : List (Actuator σ)}
  {r s : Synthesis} {w w' : σ} {v index : Nat}

theorem leftOut_refl (hpure : ∀ a ∈ as, a.Pure) : LeftOut P index as as := by
  induction as generalizing index with
  | nil => exact .nil
  | cons a as ih => exact .keep (hpure a List.mem_cons_self) (ih fun b hb => hpure b (List.mem_cons_of_mem a hb))

theorem leftOut_eraseIdx {k : Nat} (hk : P (index + k)) (hpure : ∀ j a, as[j]? = some a → j ≠ k → a.Pure) :
    LeftOut P index as (as.eraseIdx k) := by
  induction as generalizing index k with
  | nil => exact .nil
  | cons a as ih =>
    cases k with
    | zero =>
      refine .drop hk (leftOut_refl fun b hb => ?_)
      obtain ⟨j, hj⟩ := List.mem_iff_getElem?.mp hb
      exact hpure (j + 1) b hj (Nat.succ_ne_zero j)
    | succ k =>
      refine .keep (hpure 0 a rfl (Nat.succ_ne_zero k).symm) (ih ?_ fun j b hj hne => ?_)
      · rwa [Nat.add_right_comm]
      · exact hpure (j + 1) b hj fun heq => hne (Nat.succ.inj heq)

theorem Agrees.graph (h : r.Agrees s) : r.graph = s.graph := by
  rw [h]
  rfl

theorem Agrees.hasGoal (h : r.Agrees s) : r.hasGoal = s.hasGoal := by
  rw [h]
  rfl

theorem Agrees.overflowed (h : r.Agrees s) : r.overflowed = s.overflowed := by
  rw [h]
  rfl

theorem Agrees.plan? (h : r.Agrees s) : Planner.plan? limits ps r = Planner.plan? limits ps s := by
  rw [h]
  rfl

/-- Questions about one vertex with one answer keep syntheses in agreement, whatever their numbers. -/
theorem Agrees.answered (h : r.Agrees s) {q q' : Asked} (hvertex : q'.vertex = q.vertex) (hanswer : q'.answer = q.answer) :
    (r.answered limits goal ps q').Agrees (s.answered limits goal ps q) := by
  have hlooked : q'.looked limits = q.looked limits := by rw [Asked.looked, Asked.looked, hanswer]
  have heq : (s.withAsked r.asked).answered limits goal ps q' =
      (s.answered limits goal ps q).withAsked (r.asked.push q') := answered_withAsked r.asked hvertex hlooked
  rw [← h] at heq
  rw [Agrees, heq]
  rfl

/-- A failure that is met on one side only keeps syntheses in agreement. -/
theorem Agrees.failed (h : r.Agrees s) {q : Asked} {error : ActuatorError} (hanswer : q.answer = .error error) :
    r.Agrees (s.answered limits goal ps q) := by
  rw [answered_error hanswer]
  exact h

theorem Agrees.finished (h : r.Agrees s) : (finished start goal ps r).Agrees (finished start goal ps s) := by
  rw [Agrees, asked_finished, ← finished_withAsked, ← h]

theorem visit_leftOut (h : LeftOut P index as bs) {state : State} {index' : Nat} (hrs : r.Agrees s)
    (hroom : s.graph.size < limits.states) (hfailing : Failing P (visit limits goal ps v state index as s w).1) :
    (visit limits goal ps v state index' bs r w').1.Agrees (visit limits goal ps v state index as s w).1 := by
  -- By what is left out; the actuators that stay are asked the same, with other numbers and memories.
  induction h generalizing index' r s w w' with
  | nil => exact hrs
  | @keep index a as bs hpure _ ih =>
    have hroom' : r.graph.size < limits.states := by rwa [hrs.graph]
    have hrs' : (r.answered limits goal ps ⟨index', v, state, (a.nextState state goal ps w').1⟩).Agrees
        (s.answered limits goal ps ⟨index, v, state, (a.nextState state goal ps w).1⟩) :=
      hrs.answered rfl (hpure state goal ps w' w)
    rw [visit_cons hroom rfl] at hfailing
    rw [visit_cons hroom rfl, visit_cons hroom' rfl]
    dsimp only at hfailing ⊢
    rw [hrs'.graph]
    split
    · exact hrs'
    · rename_i hspace
      rw [if_neg hspace] at hfailing
      exact ih hrs' (Nat.not_le.mp hspace) hfailing
  | @drop index a as bs hindex _ ih =>
    obtain ⟨error, herror⟩ := hfailing _ (first_mem_asked_visit hroom) hindex
    have hrs' : r.Agrees (s.answered limits goal ps ⟨index, v, state, (a.nextState state goal ps w).1⟩) :=
      hrs.failed herror
    have hspace : ¬limits.states ≤ (s.answered limits goal ps ⟨index, v, state, (a.nextState state goal ps w).1⟩).graph.size := by
      rw [← hrs'.graph, hrs.graph]
      exact Nat.not_le.mpr hroom
    rw [visit_cons hroom rfl] at hfailing ⊢
    dsimp only at hfailing ⊢
    rw [if_neg hspace] at hfailing ⊢
    exact ih hrs' (Nat.not_le.mp hspace) hfailing

theorem explore_leftOut (h : LeftOut P 0 as bs) (hrs : r.Agrees s)
    (hfailing : Failing P (explore limits goal ps as v s w).1) :
    (explore limits goal ps bs v r w').1.Agrees (explore limits goal ps as v s w).1 :=
  explore_related (Q := fun x y => x.1.Agrees y.1) Agrees.graph
    (fun _ _ hrs hroom hfailing => visit_leftOut h hrs hroom hfailing) hrs hfailing

/-- Actuators that only fail can be left out. -/
theorem build_leftOut (h : LeftOut P 0 as bs) (hfailing : Failing P (build limits as start goal ps w).1) :
    (build limits bs start goal ps w').1.Agrees (build limits as start goal ps w).1 := by
  rw [Failing, (build_finishes limits as start goal ps w).asked] at hfailing
  exact Agrees.finished (explore_leftOut h rfl hfailing)

/-! ### Hidden -/

theorem mirrors_hushed (goal : State) (ps : Profiles) (as : List (Actuator σ)) :
    List.Forall₂ (Mirrors Eq (fun _ => True) goal ps) (as.map Actuator.hushed) as := by
  rw [List.forall₂_map_left_iff, List.forall₂_same]
  rintro a - index vertex state t w rfl -
  exact ⟨rfl, rfl⟩

/-- Failures can be hidden. -/
theorem build_hushed :
    (build limits (as.map Actuator.hushed) start goal ps w).1.hushed = (build limits as start goal ps w).1.hushed ∧
      (build limits (as.map Actuator.hushed) start goal ps w).2 = (build limits as start goal ps w).2 :=
  build_mirrored (mirrors_hushed goal ps as) rfl fun _ _ => trivial

end
end Synthesis

namespace Planner
open Synthesis

section
variable {σ : Type}

theorem createPlan_hushed (limits : PlannerLimits) (actuators : List (Actuator σ)) (start goal : State) (ps : Profiles)
    (w : σ) :
    createPlan limits (actuators.map Actuator.hushed) start goal ps w = createPlan limits actuators start goal ps w :=
  Prod.ext (createPlan_mirrored (mirrors_hushed goal ps actuators) rfl fun _ _ => trivial) build_hushed.2

/-! ### Told -/

/-- Whatever is told to one actuator after the other is noted in their order, and the memory is what it is without the
    notes. -/
theorem foldl_noting (call : Actuator σ → σ → σ) (call' : Actuator (List Told × σ) → List Told × σ → List Told × σ)
    (told : Nat → Told) (h : ∀ a i w, call' (Actuator.noting a i) w = (w.1 ++ [told i], call a w.2))
    (actuators : List (Actuator σ)) (index : Nat) (notes : List Told) (w : σ) :
    (noting actuators index).foldl (fun w a => call' a w) (notes, w) =
      (notes ++ (List.range' index actuators.length).map told, actuators.foldl (fun w a => call a w) w) := by
  induction actuators generalizing index notes w with
  | nil => simp [noting]
  | cons a as ih =>
    change (noting as (index + 1)).foldl (fun w a => call' a w) (call' (a.noting index) (notes, w)) = _
    rw [h, ih, List.foldl_cons, List.length_cons, List.range'_succ, List.map_cons, List.append_assoc,
      List.singleton_append]

theorem executePlan_noting (actuators : List (Actuator σ)) (state : State) (plan : List Action) (w : σ) :
    executePlan (noting actuators 0) state plan ([], w) =
      ((List.range actuators.length).map (Told.perform · state plan), executePlan actuators state plan w) := by
  rw [List.range_eq_range']
  exact foldl_noting (fun a w => (a.perform state plan w).2) _ (Told.perform · state plan) (fun _ _ _ => rfl) actuators 0
    [] w

theorem triggerEffect_noting (actuators : List (Actuator σ)) (state : State) (ps : Profiles) (w : σ) :
    triggerEffect (noting actuators 0) state ps ([], w) =
      ((List.range actuators.length).map (Told.effect · state ps), triggerEffect actuators state ps w) := by
  rw [List.range_eq_range']
  exact foldl_noting (fun a w => (a.effect state ps w).2) _ (Told.effect · state ps) (fun _ _ _ => rfl) actuators 0 [] w

end

/-- A failing actuator affects nobody else. The graph, its flags, the plan and the memory that is left are those of
    actuators that answer with an empty list where these fail. Where an actuator fails at all its calls and the others
    have no memory, the graph, its flags and the plan are those without it. A plan is told to every actuator once, in
    their order, and an update of the effects is told to every actuator once, whichever of them fail. -/
theorem failures_isolated {σ : Type} (limits : PlannerLimits) (actuators : List (Actuator σ)) (start goal : State)
    (ps : Profiles) (w : σ) :
    let s := (build limits actuators start goal ps w).1
    (let hushed := actuators.map Actuator.hushed
      let t := (build limits hushed start goal ps w).1
      t.graph = s.graph ∧ t.hasGoal = s.hasGoal ∧ t.overflowed = s.overflowed ∧
        createPlan limits hushed start goal ps w = createPlan limits actuators start goal ps w) ∧
    (∀ i, (∀ q ∈ s.asked, q.actuator = i → ∃ error, q.answer = .error error) →
      (∀ j a, actuators[j]? = some a → j ≠ i → a.Pure) → ∀ w',
      let others := actuators.eraseIdx i
      let t := (build limits others start goal ps w').1
      t.graph = s.graph ∧ t.hasGoal = s.hasGoal ∧ t.overflowed = s.overflowed ∧
        (createPlan limits others start goal ps w').1 = (createPlan limits actuators start goal ps w).1) ∧
    (∀ state plan, executePlan (noting actuators 0) state plan ([], w) =
      ((List.range actuators.length).map (Told.perform · state plan), executePlan actuators state plan w)) ∧
    ∀ state,
      let (notes, memory) := triggerEffect (noting actuators 0) state ps ([], w)
      notes.Perm ((List.range actuators.length).map (Told.effect · state ps)) ∧
        memory = triggerEffect actuators state ps w := by
  intro s
  refine ⟨?_, fun i hfailing hpure w' => ?_, fun state plan => executePlan_noting actuators state plan w,
    fun state => ?_⟩
  · have hgraph : (build limits (actuators.map Actuator.hushed) start goal ps w).1.hushed = s.hushed := build_hushed.1
    exact ⟨graph_eq_of_hushed hgraph, hasGoal_eq_of_hushed hgraph, overflowed_eq_of_hushed hgraph,
      createPlan_hushed limits actuators start goal ps w⟩
  · have hleftOut : LeftOut (· = i) 0 actuators (actuators.eraseIdx i) := leftOut_eraseIdx (Nat.zero_add i) hpure
    have hagrees : (build limits (actuators.eraseIdx i) start goal ps w').1.Agrees s := build_leftOut hleftOut hfailing
    exact ⟨hagrees.graph, hagrees.hasGoal, hagrees.overflowed, hagrees.plan?⟩
  · rw [triggerEffect_noting]
    exact ⟨.refl _, rfl⟩

/-- An actuator that fails at every call. -/
def broken : Actuator Unit where
  name := "broken"
  group := "test"
  nextState _ _ _ w := (.error .stopped, w)
  perform _ _ w := (.error .stopped, w)
  effect _ _ w := (.error .stopped, w)

/-- The failed question, and behind it the one that leaves no room. -/
def askedBoth : List Asked := [⟨0, startId, here, .error .stopped⟩, { climbed with actuator := 1 }]

theorem explored_broken :
    (explored ⟨3, 5, 0⟩ [broken, climber] here there .empty ()).1 =
      askedBoth.foldl (answered ⟨3, 5, 0⟩ there .empty) (initial here there) := by
  rw [explored, explore, dif_pos (by decide)]
  change (explore _ there .empty [broken, climber] (following startId)
    (askedBoth.foldl (answered ⟨3, 5, 0⟩ there .empty) (initial here there)) ()).1 = _
  rw [explore, dif_neg (by decide)]

theorem failures_isolated_broken :
    let s := (build ⟨3, 5, 0⟩ [broken, climber] here there .empty ()).1
    let plan? := (createPlan ⟨3, 5, 0⟩ [broken, climber] here there .empty ()).1
    let plan : List Action := [{ name := "climb" }]
    s.asked = askedBoth.toArray ∧ (∀ q ∈ s.asked, q.actuator = 0 → ∃ error, q.answer = .error error) ∧
      (∀ j a, [broken, climber][j]? = some a → j ≠ 0 → a.Pure) ∧ plan? = some plan ∧
      (executePlan (noting [broken, climber] 0) here plan ([], ())).1 = [.perform 0 here plan, .perform 1 here plan] := by
  intro s plan? plan
  have hasked : s.asked = askedBoth.toArray := by
    have hfinishes := (build_finishes ⟨3, 5, 0⟩ [broken, climber] here there .empty ()).asked
    rw [explored_broken] at hfinishes
    exact hfinishes
  have hfailing : ∀ q ∈ s.asked, q.actuator = 0 → ∃ error, q.answer = .error error := by
    intro q hq hzero
    rw [hasked] at hq
    rcases List.mem_cons.mp (List.mem_toArray.mp hq) with rfl | hq
    · exact ⟨.stopped, rfl⟩
    · obtain rfl := List.mem_singleton.mp hq
      cases hzero
  have hpure : ∀ j a, [broken, climber][j]? = some a → j ≠ 0 → a.Pure := by
    intro j a hj _
    have hmem : a ∈ [broken, climber] := List.mem_of_getElem? hj
    simp only [List.mem_cons, List.not_mem_nil, or_false] at hmem
    rcases hmem with rfl | rfl <;> exact fun _ _ _ _ _ => rfl
  obtain ⟨-, hleftOut, hexecute, -⟩ := failures_isolated ⟨3, 5, 0⟩ [broken, climber] here there .empty ()
  obtain ⟨-, -, -, hplan⟩ := hleftOut 0 hfailing hpure ()
  have hclimb : plan? = some plan := by
    refine hplan.symm.trans ?_
    change Planner.plan? ⟨3, 5, 0⟩ .empty (build ⟨3, 5, 0⟩ [climber] here there .empty ()).1 = _
    rw [build_climber]
    decide +kernel
  exact ⟨hasked, hfailing, hpure, hclimb, congrArg Prod.fst (hexecute here plan)⟩

end Planner
end Intendant
