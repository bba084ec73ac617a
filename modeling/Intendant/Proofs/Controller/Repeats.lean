import Intendant.Proofs.Controller.Steps

/-! # Repeated executions

While a key is among the recent ones no caller picks it. So after a round has noted a key, the plans for it that are
executed before it is forgotten are those of rounds on copies of the key that were under way already: held by a caller, in
the queue, or taken by a round that had not come to the execution of its plan (`System.run_executes_underway`). Such
copies exist; nobody looks at the recent keys again when a copy is taken. -/

namespace Intendant
variable {π : Type}

/-- The keys that a caller has yet to queue. -/
def Sender.keys : Sender → List String
  | starting => []
  | sending keys => keys

namespace Round

/-- The key of a round that may yet come to execute a plan. -/
def ahead : Round π → List String
  | executing _ _ => []
  | reviewing _ _ => []
  | tracing _ _ => []
  | r => [r.key]

end Round

namespace System

/-- The keys that are on their way to an execution. -/
def underway (s : System π) : List String :=
  s.senders.flatMap Sender.keys ++ s.controller.queue ++ s.rounds.flatMap Round.ahead

/-- The execution that begins with a move, with its time. -/
def begins (s : System π) : Move π → List (Nat × String)
  | .goOn index reply =>
    match s.rounds[index]?.bind fun r => r.step? s.controller reply with
    | some (_, some r) => r.inExecution.map fun k => (s.controller.now, k)
    | _ => []
  | _ => []

/-- The executions that begin in a run, in their order. -/
def executions (s : System π) : List (Move π) → List (Nat × String)
  | [] => []
  | m :: moves =>
    match s.step? m with
    | some s' => s.begins m ++ s'.executions moves
    | none => []

end System

variable {c c' : Controller π} {s s' : System π} {m : Move π} {k : String} {t : Nat}

/-! ### One step -/

/-- A caller does not pick a key that is remembered. -/
theorem Sender.Stepped.count_le {u : Sender} {rest : Option Sender} (h : u.Stepped c c' rest)
    (hk : c.recent.contains c.now k = true) :
    (rest.toList.flatMap Sender.keys).count k + c'.queue.count k ≤ u.keys.count k + c.queue.count k := by
  cases h with
  | look =>
    have habsent : k ∉ c.pending := fun hmem => Bool.false_ne_true ((Controller.mem_pending.mp hmem).2.symm.trans hk)
    simp [Sender.keys, List.count_eq_zero.mpr habsent]
  | queue =>
    simp only [Option.toList_some, List.flatMap_cons, List.flatMap_nil, List.append_nil, Sender.keys, List.count_append,
      List.count_cons, List.count_nil]
    omega
  | _ => simp

/-- A round comes to the execution of one plan at most, and not before it is at hand. -/
theorem Round.Stepped.sublist {r : Round π} {reply : Option Reply} {rest : Option (Round π)}
    (h : r.Stepped c reply c' rest) :
    (rest.toList.flatMap Round.inExecution ++ rest.toList.flatMap Round.ahead).Sublist r.ahead := by
  cases h <;> simp [Round.ahead, Round.inExecution, Round.key]

namespace System

theorem begins_goOn {before after : List (Round π)} {r : Round π} {reply : Option Reply} {rest : Option (Round π)}
    (rounds : s.rounds = before ++ r :: after) (h : r.Stepped s.controller reply c rest) :
    s.begins (.goOn before.length reply) =
      (rest.toList.flatMap Round.inExecution).map fun k => (s.controller.now, k) := by
  have hround : s.rounds[before.length]? = some r := rounds ▸ Places.getElem?_split before after r
  rw [begins, hround, Option.bind_some, Round.step?_of_stepped h]
  cases rest with
  | none => rfl
  | some r' => simp

/-- While a key is remembered, fewer copies of it are under way after each execution, and never more. -/
theorem Stepped.count_underway_le (h : Stepped s m s') (hk : s.controller.recent.contains s.controller.now k = true) :
    ((s.begins m).map (·.2)).count k + s'.underway.count k ≤ s.underway.count k := by
  cases h with
  | start => exact Nat.le_of_eq (Nat.zero_add _)
  | leave => exact Nat.le_of_eq (Nat.zero_add _)
  | event h =>
    have hnew : ∀ {m : Move π} {c : Controller π}, s.controller.Event m c →
        s.begins m = [] ∧ m.newSenders.flatMap Sender.keys = [] := by
      intro m c h
      cases h <;> exact ⟨rfl, rfl⟩
    simp [hnew h, underway, h.queue]
  | @send before after u c rest senders h =>
    have hcount := h.count_le hk
    simp only [underway, begins, senders, List.flatMap_append, List.flatMap_cons, List.count_append, List.map_nil,
      List.count_nil]
    omega
  -- A key that is taken is under way in its round.
  | take workers queue =>
    simp only [underway, begins, queue, List.flatMap_append, List.flatMap_cons, List.flatMap_nil, List.count_append,
      List.map_nil, List.count_nil, List.count_cons, Round.ahead, Round.key]
    omega
  | @goOn before after r reply c rest rounds h =>
    have hcount := h.sublist.count_le k
    have hqueue : c.queue = s.controller.queue := by cases h <;> rfl
    rw [begins_goOn rounds h]
    simp only [List.count_append] at hcount
    simp only [underway, rounds, hqueue, List.flatMap_append, List.flatMap_cons, List.count_append, List.map_map,
      Function.comp_def, List.map_id']
    omega
  | @stall before after r rounds waits =>
    simp only [underway, begins, rounds, List.flatMap_append, List.flatMap_cons, List.count_append, List.map_nil,
      List.count_nil]
    omega

/-! ### Runs -/

theorem time_of_mem_begins {e : Nat × String} (he : e ∈ s.begins m) : e.1 = s.controller.now := by
  unfold begins at he
  split at he
  · split at he
    · obtain ⟨k, -, rfl⟩ := List.mem_map.mp he
      rfl
    · cases he
  · cases he

theorem now_le_of_mem_executions {moves : List (Move π)} {e : Nat × String} (he : e ∈ s.executions moves) :
    s.controller.now ≤ e.1 := by
  induction moves generalizing s with
  | nil => cases he
  | cons m moves ih =>
    unfold executions at he
    split at he
    · rename_i s' hstep
      rcases List.mem_append.mp he with he | he
      · exact Nat.le_of_eq (time_of_mem_begins he).symm
      · exact Nat.le_trans (stepped_of_step? hstep).now_le (ih he)
    · cases he

/-- As long as a key is remembered, only what is under way can come to an execution. -/
theorem countP_executions_le (h : s.controller.Remembers k t) (ht : t ≤ s.controller.now) (moves : List (Move π)) :
    (s.executions moves).countP (fun e => e.2 = k ∧ e.1 ≤ t + s.controller.recent.lifetime) ≤ s.underway.count k := by
  -- Over the moves, as long as there is time; the count of what is under way pays for each execution.
  induction moves generalizing s with
  | nil => exact Nat.zero_le _
  | cons m moves ih =>
    by_cases hearly : s.controller.now ≤ t + s.controller.recent.lifetime
    · unfold executions
      split
      · rename_i s' hstep
        have hstepped := stepped_of_step? hstep
        have hrest := ih (hstepped.remembers h ht) (Nat.le_trans ht hstepped.now_le)
        rw [hstepped.lifetime] at hrest
        have hbegins : (s.begins m).countP (fun e => e.2 = k ∧ e.1 ≤ t + s.controller.recent.lifetime) ≤
            ((s.begins m).map (·.2)).count k := by
          rw [List.count, List.countP_map]
          exact List.countP_mono_left fun e _ he => by
            simpa using (of_decide_eq_true he).1
        have hcount := hstepped.count_underway_le (h.contains hearly)
        rw [List.countP_append]
        omega
      · exact Nat.zero_le _
    · -- The key may be under way anew, but all that begins now begins too late to count.
      refine Nat.le_trans (Nat.le_of_eq (List.countP_eq_zero.mpr fun e he hcounted => ?_)) (Nat.zero_le _)
      exact hearly (Nat.le_trans (now_le_of_mem_executions he) (of_decide_eq_true hcounted).2)

/-- When a round notes a key as a recent one, at most those copies of the key come to an execution before it is forgotten
    that are under way at that moment. -/
theorem run_executes_underway (settings : ControllerSettings) (planner : Option π) (before : List (Move π))
    {index : Nat} {o : Observation π} {plan : List Action} (hrun : (initial settings planner).run? before = some s)
    (hround : s.rounds[index]? = some (.executing o plan)) (hnote : s.step? (.goOn index (some .done)) = some s')
    (more : List (Move π)) :
    (s'.executions more).countP (fun e => e.2 = o.key ∧ e.1 ≤ s.controller.now + settings.cacheTtlMs) ≤
      s'.underway.count o.key := by
  have hlifetime : s'.controller.recent.lifetime = settings.cacheTtlMs :=
    (stepped_of_step? hnote).lifetime.trans (lifetime_run hrun)
  have hcontroller : s'.controller = { s.controller with recent := s.controller.recent.put s.controller.now o.key } := by
    rw [step?, hround] at hnote
    exact congrArg System.controller (Option.some.inj hnote).symm
  have hnow : s'.controller.now = s.controller.now := by rw [hcontroller]
  rw [← hlifetime]
  refine countP_executions_le (fun _ => ?_) (Nat.le_of_eq hnow.symm) more
  rw [hcontroller]
  exact ⟨s.controller.now, Nat.le_refl _, (Recent.get?_put ..).trans (if_pos rfl)⟩

/-! ### Two ticks before a worker comes

Both ticks queue the key, so its plan is executed twice. -/

/-- The one intent there is. -/
def wanted : Intent := { key := "a" }

/-- The plan for it. -/
def scaleOut : List Action := [{ name := "scale_out" }]

/-- A caller looks for its keys, sends the only one and is done. -/
def sendOne : List (Move Unit) := [.send 0, .send 0, .send 0]

/-- A round from the queue to the execution of its plan. -/
def toExecution : List (Move Unit) :=
  [.take, .goOn 0 none, .goOn 0 none, .goOn 0 none, .goOn 0 (some (.observed (.ok {}))), .goOn 0 (some (.plan scaleOut)),
    .goOn 0 none]

/-- The worker takes the key from the queue that the second tick has put there. -/
def twiceQueued : List (Move Unit) :=
  [.start 1, .updateIntent wanted, .send 0, .tick] ++ sendOne ++ [.tick] ++ sendOne ++ toExecution

/-- The end of one round, and the next one as far as the execution. -/
def secondRound : List (Move Unit) := [.goOn 0 (some .done), .goOn 0 (some .done)] ++ toExecution

/-- What a round observes about the intent. -/
def observedAs : Observation Unit := ⟨"a", (), .empty, {}, { intent := wanted }⟩

/-- The second execution begins at the very time at which the key was noted after the first one. -/
theorem run_executes_twice :
    ∃ s s' : System Unit, (initial {} (some ())).run? twiceQueued = some s ∧
      s.rounds[0]? = some (.executing observedAs scaleOut) ∧ s.step? (.goOn 0 (some .done)) = some s' ∧
      s'.executions secondRound = [(s.controller.now, observedAs.key)] := by
  refine ⟨_, _, rfl, rfl, rfl, rfl⟩

/-- One copy of the key is under way when it is noted, and its execution is the only one. -/
theorem run_executes_underway_twice :
    ∃ s s' : System Unit, (initial {} (some ())).run? twiceQueued = some s ∧
      s.rounds[0]? = some (.executing observedAs scaleOut) ∧ s.step? (.goOn 0 (some .done)) = some s' ∧
      s'.underway = [observedAs.key] ∧
      (s'.executions (secondRound ++ [.goOn 0 (some .done), .tick, .send 0])).countP
        (fun e => e.2 = observedAs.key ∧ e.1 ≤ s.controller.now + 10000) ≤ 1 := by
  have hrun : ∃ s s' : System Unit, (initial {} (some ())).run? twiceQueued = some s ∧
      s.rounds[0]? = some (.executing observedAs scaleOut) ∧ s.step? (.goOn 0 (some .done)) = some s' ∧
      s'.underway = [observedAs.key] := ⟨_, _, rfl, rfl, rfl, rfl⟩
  obtain ⟨s, s', hrun, hround, hnote, hunderway⟩ := hrun
  have hcount := run_executes_underway {} (some ()) twiceQueued hrun hround hnote
    (secondRound ++ [.goOn 0 (some .done), .tick, .send 0])
  rw [hunderway, List.count_singleton_self] at hcount
  exact ⟨s, s', hrun, hround, hnote, hunderway, hcount⟩

end System
end Intendant
