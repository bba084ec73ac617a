import Intendant.Plugin.Session
import Intendant.Proofs.Planner.Mirrored
import Intendant.Proofs.Planner.Satisfied
import Intendant.Proofs.Wire.Messages

/-! # Planning with remote actuators

A remote actuator stands in for the one at the other end of its stream, as long as all doubles on the stream are finite
and read back (`mirrors_remote`). So planning with remote actuators and planning with the actuators themselves come to
the same (`plan_remote`), and it is enough to look at the doubles of the start, of the goal and of what the actuators
propose (`crosses_of_carried`). -/

namespace Intendant.Plugin
open Wire Synthesis Planner

/-! ### One call -/

theorem zipped_map (cs : List Candidate) :
    NextStateAnswer.zipped (cs.map (·.state)) (cs.map (·.utility)) (cs.map (·.action)) = cs := by
  induction cs with
  | nil => rfl
  | cons c cs ih => exact congrArg (c :: ·) ih

/-- Candidates are paired again as they were. -/
theorem candidates_ofCandidates (cs : List Candidate) : (NextStateAnswer.ofCandidates cs).candidates = cs := zipped_map cs

section
variable [Json.Reading] {σ : Type}

/-- The doubles in the messages about a question are finite and read back. -/
def Crosses (goal : State) (ps : Profiles) (q : Asked) : Prop :=
  Carried (⟨q.state, goal, ps⟩ : NextStateRequest) ∧ Carried (NextStateAnswer.ofCandidates (candidatesOf q.answer))

theorem answerText_encode (a : Actuator σ) {q : NextStateRequest} {answer : Except ActuatorError (List Candidate)} {w w' : σ}
    (hq : Carried q) (h : a.nextState q.state q.goal q.profiles w = (answer, w')) :
    answerText a (encode q) w = (encode (NextStateAnswer.ofCandidates (candidatesOf answer)), w') := by
  rw [answerText, decode?_carried hq]
  dsimp only
  rw [answerRequest, h]
  cases answer with
  | ok cs => rfl
  | error e => rfl

theorem readAnswer_encode {cs : List Candidate} (h : Carried (NextStateAnswer.ofCandidates cs)) :
    readAnswer (encode (NextStateAnswer.ofCandidates cs)) = .ok cs := by
  rw [readAnswer, decode?_carried h]
  exact congrArg Except.ok (candidates_ofCandidates cs)

/-- A call whose messages are carried gives what the actuator gives, but for a failure, which gives nothing. -/
theorem nextState_remote (a : Actuator σ) {state goal : State} {ps : Profiles} {w : σ}
    (hrequest : Carried (⟨state, goal, ps⟩ : NextStateRequest))
    (hanswer : Carried (NextStateAnswer.ofCandidates (candidatesOf (a.nextState state goal ps w).1))) :
    (remote a).nextState state goal ps w =
      (.ok (candidatesOf (a.nextState state goal ps w).1), (a.nextState state goal ps w).2) := by
  have hanswered := answerText_encode a hrequest (w := w) rfl
  dsimp only [remote]
  rw [hanswered]
  dsimp only
  rw [readAnswer_encode hanswer]

theorem mirrors_remote (goal : State) (ps : Profiles) (a : Actuator σ) :
    Mirrors Eq (Crosses goal ps) goal ps (remote a) a := by
  rintro index vertex state w _ rfl ⟨hrequest, hanswer⟩
  rw [nextState_remote a hrequest hanswer]
  exact ⟨rfl, rfl⟩

theorem mirrors_remotes (goal : State) (ps : Profiles) (as : List (Actuator σ)) :
    List.Forall₂ (Mirrors Eq (Crosses goal ps) goal ps) (as.map remote) as := by
  induction as with
  | nil => exact .nil
  | cons a as ih => exact .cons (mirrors_remote goal ps a) ih

/-! ### The whole planning -/

theorem carried_of_looked {limits : PlannerLimits} {q : Asked} {c : Candidate}
    (hq : Carried (NextStateAnswer.ofCandidates (candidatesOf q.answer))) (hc : c ∈ q.looked limits) :
    Carried c.state := by
  have hmem : c ∈ candidatesOf q.answer := by
    unfold Asked.looked at hc
    cases h : q.answer with
    | ok cs =>
      rw [h] at hc
      exact List.mem_of_mem_take hc
    | error e =>
      rw [h] at hc
      exact hc
  intro x hx
  have hstates : x ∈ floats ((candidatesOf q.answer).map (·.state)) :=
    List.mem_flatMap_of_mem (List.mem_map_of_mem hmem) hx
  exact hq x (List.mem_append_left _ hstates)

/-- No state of an explored graph has other doubles than the start, the goal and the candidates have. -/
theorem carried_value {limits : PlannerLimits} {as : List (Actuator σ)} {start goal : State} {ps : Profiles} {s : Synthesis}
    {u : Nat} {state : State} (hs : Charted limits as start goal ps s) (hstart : Carried start) (hgoal : Carried goal)
    (h : ∀ q ∈ s.asked, Carried (NextStateAnswer.ofCandidates (candidatesOf q.answer)))
    (hstate : s.graph.value? u = some state) : Carried state := by
  by_cases hu : u = goalId
  · rw [hu, hs.goal_value] at hstate
    cases hstate
    exact hgoal
  by_cases hu0 : u = startId
  · rw [hu0, hs.start_value] at hstate
    cases hstate
    exact hstart
  obtain ⟨v, e, he, rfl⟩ := (hs.reached u (Graph.lt_size_of_value? hstate) hu).last_edge (Ne.symm hu0)
  rcases hs.edge v e he with ⟨q, hq, c, hc, -, hvalue, -⟩ | ⟨-, rfl⟩
  · rw [hvalue] at hstate
    cases hstate
    exact carried_of_looked (h q hq) hc
  · exact absurd rfl hu

/-- All that crosses the wire is carried if the start, the goal and all answers are. -/
theorem crosses_of_carried {limits : PlannerLimits} {as : List (Actuator σ)} {start goal : State} {ps : Profiles} {w : σ}
    (hstart : Carried start) (hgoal : Carried goal)
    (h : ∀ q ∈ (build limits as start goal ps w).1.asked, Carried (NextStateAnswer.ofCandidates (candidatesOf q.answer))) :
    ∀ q ∈ (build limits as start goal ps w).1.asked, Crosses goal ps q := by
  have hcharted : Charted limits as start goal ps (explored limits as start goal ps w).1 :=
    explored_grown.charted
  have hasked := (build_finishes limits as start goal ps w).asked
  rw [hasked] at h ⊢
  intro q hq
  have hstate := carried_value hcharted hstart hgoal h (hcharted.asked q hq).2.2
  exact ⟨List.forall_mem_append.mpr ⟨hstate, hgoal⟩, h q hq⟩

/-- Remote actuators are asked the same questions as the actuators themselves and answer with the same candidates. They
    lead to the same graph and the same plan, and end with the same memory. -/
theorem plan_remote (limits : PlannerLimits) (as : List (Actuator σ)) (start goal : State) (ps : Profiles) (w : σ)
    (h : ∀ q ∈ (build limits as start goal ps w).1.asked, Crosses goal ps q) :
    let s := build limits as start goal ps w
    let r := build limits (as.map remote) start goal ps w
    r.1.graph = s.1.graph ∧ r.1.hasGoal = s.1.hasGoal ∧ r.1.overflowed = s.1.overflowed ∧
      r.1.asked.map Asked.hushed = s.1.asked.map Asked.hushed ∧ r.2 = s.2 ∧
      createPlan limits (as.map remote) start goal ps w = createPlan limits as start goal ps w := by
  intro s r
  obtain ⟨hs, hmemory⟩ : r.1.hushed = s.1.hushed ∧ r.2 = s.2 := build_mirrored (mirrors_remotes goal ps as) rfl h
  have hplan := createPlan_mirrored (mirrors_remotes goal ps as) rfl h
  exact ⟨graph_eq_of_hushed hs, hasGoal_eq_of_hushed hs, overflowed_eq_of_hushed hs, congrArg Synthesis.asked hs, hmemory,
    Prod.ext hplan hmemory⟩

end

/-- An actuator that fails at every call. -/
def outage : Actuator Unit where
  name := "outage"
  group := "test"
  nextState _ _ _ w := (.error (.failed "out of order"), w)
  perform _ _ w := (.ok (), w)
  effect _ _ w := (.ok (), w)

/-- The questions that there is room for: the first one fails, and the second one fills the graph. -/
def climbedInOutage : Synthesis :=
  [⟨0, startId, here, .error (.failed "out of order")⟩,
    ⟨1, startId, here, .ok [⟨beyond, 1.0, { name := "climb" }⟩]⟩].foldl
    (answered ⟨3, 5, 0⟩ there .empty) (.initial here there)

theorem build_outage : (build ⟨3, 5, 0⟩ [outage, climber] here there .empty ()).1 =
    climbedInOutage := by
  have hexplored : explored ⟨3, 5, 0⟩ [outage, climber] here there .empty () =
      (climbedInOutage, ()) := by
    rw [explored, explore, dif_pos (by decide)]
    change explore _ there .empty [outage, climber] (following startId)
      climbedInOutage () = _
    rw [explore, dif_neg (by decide +kernel)]
  rw [build, hexplored]
  change finished here there .empty climbedInOutage = _
  rw [finished, if_neg (by decide +kernel)]

theorem createPlan_outage :
    (createPlan ⟨3, 5, 0⟩ [outage, climber] here there .empty ()).1 = some [{ name := "climb" }] := by
  change plan? ⟨3, 5, 0⟩ .empty (build ⟨3, 5, 0⟩ [outage, climber] here there .empty ()).1 = _
  rw [build_outage]
  decide +kernel

theorem plan_remote_outage :
    let _ : Json.Reading := .scaled
    (∀ q ∈ (build ⟨3, 5, 0⟩ [outage, climber] here there .empty ()).1.asked, Crosses there .empty q) ∧
      (∃ q ∈ (build ⟨3, 5, 0⟩ [outage, climber] here there .empty ()).1.asked, q.answer = .error (.failed "out of order")) ∧
      (build ⟨3, 5, 0⟩ ([outage, climber].map remote) here there .empty ()).1.graph = climbedInOutage.graph ∧
      (createPlan ⟨3, 5, 0⟩ ([outage, climber].map remote) here there .empty ()).1 = some [{ name := "climb" }] := by
  have hcarried : ∀ q ∈ climbedInOutage.asked,
      @Carried _ _ .scaled (NextStateAnswer.ofCandidates (candidatesOf q.answer)) := by
    decide +kernel
  intro _
  have hcrosses : ∀ q ∈ (build ⟨3, 5, 0⟩ [outage, climber] here there .empty ()).1.asked, Crosses there .empty q := by
    refine crosses_of_carried (by decide +kernel) (by decide +kernel) ?_
    rw [build_outage]
    exact hcarried
  obtain ⟨hgraph, -, -, -, -, hplan⟩ := plan_remote ⟨3, 5, 0⟩ [outage, climber] here there .empty () hcrosses
  refine ⟨hcrosses, ?_, ?_, ?_⟩
  · rw [build_outage]
    exact ⟨_, Array.mem_push_of_mem _ Array.mem_push_self, rfl⟩
  · rw [hgraph, build_outage]
  · rw [hplan]
    exact createPlan_outage

end Intendant.Plugin
