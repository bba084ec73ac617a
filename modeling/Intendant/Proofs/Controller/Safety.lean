import Intendant.Proofs.Controller.Records

/-! # Controllers do what they are told

Whatever the order of its moves, a controller queues and plans for nothing but its intents, and executes nothing but the
plans that it was given (`History.run_follows_intents`). -/

namespace Intendant
variable {π : Type}

/-- The latest version of an intent. -/
def lastUpdate? (k : String) (moves : List (Move π)) : Option Intent :=
  moves.foldl (fun last m =>
    match m with
    | .updateIntent i => if i.key = k then some i else last
    | _ => last) none

namespace System
variable {s s' : System π} {m : Move π} {moves : List (Move π)} {settings : ControllerSettings} {planner : Option π}

/-! ### Intents and ticks -/

theorem Stepped.get?_intents (h : Stepped s m s') (k : String) :
    (∀ i, m ≠ .updateIntent i) ∧ s'.controller.intents.get? k = s.controller.intents.get? k ∨
      ∃ i, m = .updateIntent i ∧ s'.controller.intents.get? k =
        if i.key = k then (if 0.0 ≤ i.priority then some i else none) else s.controller.intents.get? k := by
  cases h with
  | event h =>
    cases h with
    | updateIntent i =>
      refine .inr ⟨i, rfl, ?_⟩
      by_cases hpriority : 0.0 ≤ i.priority
      · simp [Controller.withIntent, hpriority, eq_comm]
      · simp [Controller.withIntent, hpriority, eq_comm]
    | _ => exact .inl ⟨nofun, rfl⟩
  | send senders h => cases h <;> exact .inl ⟨nofun, rfl⟩
  | goOn rounds h => cases h <;> exact .inl ⟨nofun, rfl⟩
  | _ => exact .inl ⟨nofun, rfl⟩

/-- A controller has the latest version of an intent, unless that says that the intent is to go. -/
theorem get?_intents_run (hrun : (initial settings planner).run? moves = some s) (k : String) :
    s.controller.intents.get? k = (lastUpdate? k moves).filter (0.0 ≤ ·.priority) := by
  -- By the last move: an update of the intent settles its version, all other moves leave it.
  induction moves using List.reverseRecOn generalizing s with
  | nil =>
    cases hrun
    rfl
  | append_singleton moves m ih =>
    rw [run?_concat] at hrun
    obtain ⟨s₁, hrun, hstep⟩ := Option.bind_eq_some_iff.mp hrun
    have hlast := ih hrun
    unfold lastUpdate? at hlast ⊢
    rw [List.foldl_append]
    rcases (stepped_of_step? hstep).get?_intents k with ⟨hother, hget⟩ | ⟨i, rfl, hget⟩
    · rw [hget, hlast]
      cases m with
      | updateIntent i => exact absurd rfl (hother i)
      | _ => rfl
    · rw [hget, hlast, List.foldl_cons, List.foldl_nil]
      by_cases hkey : i.key = k
      · simp [hkey, Option.filter]
      · simp [hkey]

theorem Stepped.warm (h : Stepped s m s') : s'.controller.warm = true → s.controller.warm = true ∨ m = .tick := by
  cases h with
  | event h =>
    cases h with
    | tick => exact fun _ => .inr rfl
    | _ => exact .inl
  | send senders h => cases h <;> exact .inl
  | goOn rounds h => cases h <;> exact .inl
  | _ => exact .inl

theorem tick_mem_of_warm (hrun : (initial settings planner).run? moves = some s) (hwarm : s.controller.warm = true) :
    .tick ∈ moves := by
  induction moves using List.reverseRecOn generalizing s with
  | nil =>
    cases hrun
    cases hwarm
  | append_singleton moves m ih =>
    rw [run?_concat] at hrun
    obtain ⟨s₁, hrun, hstep⟩ := Option.bind_eq_some_iff.mp hrun
    rcases (stepped_of_step? hstep).warm hwarm with hwarm | rfl
    · exact List.mem_append_left _ (ih hrun hwarm)
    · exact List.mem_append_right _ (List.mem_singleton_self _)

end System

namespace History
variable {settings : ControllerSettings} {planner : Option π} {h : History π} {s : System π} {g : Glance π} {e : Errand π}

/-! ### What the records say -/

theorem Saw.mem_pending (hsaw : Saw settings planner h g) (k : String) :
    k ∈ g.controller.pending ↔ (∃ i, lastUpdate? k (h.moves.take g.moment) = some i ∧ 0.0 ≤ i.priority) ∧
      g.controller.recent.contains g.controller.now k = false := by
  obtain ⟨s, hrun, hcontroller⟩ := Option.map_eq_some_iff.mp hsaw.seen
  have hintents := System.get?_intents_run hrun k
  rw [hcontroller] at hintents
  rw [Controller.mem_pending, hintents]
  cases lastUpdate? k (h.moves.take g.moment) with
  | none => simp
  | some i => simp [Option.filter]

theorem Sound.queued_eq_nil (hh : Sound settings planner h) (htick : .tick ∉ h.moves) (he : e ∈ h.errands.all) :
    e.queued = [] := by
  rcases look : e.look? with _ | g
  · exact (hh.fits e he).queued_eq_nil look
  · have hsaw := hh.saw g (mem_glances_of_errand he look)
    obtain ⟨s, hrun, hcontroller⟩ := Option.map_eq_some_iff.mp hsaw.seen
    refine ((hh.fits e he).look look).1 (Bool.eq_false_iff.mpr fun hwarm => htick ?_)
    exact List.mem_of_mem_take (System.tick_mem_of_warm hrun (hcontroller ▸ hwarm))

theorem Sound.quiet (hh : Sound settings planner h) (htick : .tick ∉ h.moves) :
    h.jobs.all = [] ∧ h.system.controller.queue = [] := by
  have hnone : h.errands.all.flatMap Errand.queued = [] :=
    List.flatMap_eq_nil_iff.mpr fun e he => hh.queued_eq_nil htick he
  have hqueue := hh.queue
  rw [hnone] at hqueue
  obtain ⟨hjobs, hqueue⟩ := List.append_eq_nil_iff.mp hqueue.nil_eq.symm
  exact ⟨List.map_eq_nil_iff.mp hjobs, hqueue⟩

/-- The recent keys are those of the rounds that have had a plan executed not long ago. -/
theorem Sound.contains_iff (hh : Sound settings planner h) (k : String) :
    h.system.controller.recent.contains h.system.controller.now k = true ↔
      ∃ j ∈ h.jobs.all, j.key = k ∧ ∃ x ∈ j.steps, (∃ o plan, x.round = .executing o plan) ∧
        h.system.controller.now - x.glance.controller.now ≤ settings.cacheTtlMs := by
  have hlifetime : h.system.controller.recent.lifetime = settings.cacheTtlMs := System.lifetime_run hh.run
  -- A round executes a plan for the key that it has taken.
  have hkey : ∀ j ∈ h.jobs.all, ∀ x ∈ j.steps, ∀ o plan, x.round = .executing o plan → o.key = j.key := by
    intro j hj x hx o plan hround
    obtain ⟨older, -, hcame⟩ := (hh.came j hj).before hx
    have hbacked := hcame.backed
    rw [hround] at hbacked
    exact hbacked.key_eq
  rw [Recent.contains_iff]
  constructor
  · rintro ⟨t, hget, hfresh⟩
    obtain ⟨j, hj, x, hx, hk, rfl⟩ := hh.noted k t hget
    obtain ⟨o, plan, hround, rfl⟩ := Round.mem_inExecution.mp hk
    exact ⟨j, hj, (hkey j hj x hx o plan hround).symm, x, hx, ⟨o, plan, hround⟩, hlifetime ▸ hfresh⟩
  · rintro ⟨j, hj, rfl, x, hx, ⟨o, plan, hround⟩, hfresh⟩
    have hk : j.key ∈ x.round.inExecution := Round.mem_inExecution.mpr ⟨o, plan, hround, hkey j hj x hx o plan hround⟩
    obtain ⟨t, hle, hget⟩ := hh.remembered j hj x hx _ hk (by omega)
    exact ⟨t, hget, by omega⟩

/-- A run of a controller has a history in which

    * what callers and rounds saw of the controller is what there was at those moments of the run, and the keys to be
      queued were then, in their order, those of the intents whose latest version was not to go and that were no recent keys;
    * nothing is queued or taken before the first tick;
    * a caller has queued, one by one, the keys that were to be queued when it looked, up to those that it has yet to queue
      or, where the queue is closed, has given up, and all that is in the queue or was taken from it was queued so;
    * a round plans for the very intent that it has read under its key, asks for nothing but the state of the target if
      it finds nothing to plan for, and executes only the plan that it was given, unless that is empty, after it has seen
      that execution is not paused;
    * the recent keys are those for which the execution of a plan has ended not long ago. -/
theorem run_follows_intents (settings : ControllerSettings) (planner : Option π) (moves : List (Move π))
    (hrun : (System.initial settings planner).run? moves = some s) :
    ∃ h, (History.initial settings planner).run? moves = some h ∧ h.system = s ∧
      h.errands.active.map Errand.sender? = s.senders.map some ∧ h.jobs.active.map Job.round? = s.rounds.map some ∧
      (∀ g ∈ h.glances,
        ((System.initial settings planner).run? (moves.take g.moment)).map System.controller = some g.controller ∧
        g.controller.pending.Pairwise (· < ·) ∧
        ∀ k, k ∈ g.controller.pending ↔ (∃ i, lastUpdate? k (moves.take g.moment) = some i ∧ 0.0 ≤ i.priority) ∧
          g.controller.recent.contains g.controller.now k = false) ∧
      (.tick ∉ moves → s.controller.queue = [] ∧ h.jobs.all = [] ∧ ∀ e ∈ h.errands.all, e.queued = []) ∧
      (∀ e ∈ h.errands.all, (e.look? = none → e.queued = []) ∧
        ∀ g, e.look? = some g → (g.controller.warm = false → e.queued = []) ∧
          (g.controller.warm = true → ∃ rest, g.controller.pending = e.queued ++ rest ∧
            (e.sender? = some (.sending rest) ∨ e.sender? = none ∧ (rest = [] ∨ s.controller.closed = true)))) ∧
      (h.errands.all.flatMap Errand.queued).Perm (h.jobs.all.map Job.key ++ s.controller.queue) ∧
      (∀ j ∈ h.jobs.all,
        (∀ p current desired ps, .plan p current desired ps ∈ j.calls →
          ∃ i, HasRead j.key j.steps p i ∧ desired = { intent := i }) ∧
        (∀ x ∈ j.steps, x.FindsNothing → ∀ q ∈ j.calls, ∃ i ps, q = .observe i ps) ∧
        (∀ p current plan, .execute p current plan ∈ j.calls → plan ≠ [] ∧
          ∃ o : Observation π, o.key = j.key ∧ o.planner = p ∧ o.current = current ∧ HasCreated j.steps o plan ∧
            ∃ x ∈ j.steps, x.round = .planned o plan ∧ x.glance.controller.paused = false)) ∧
      (∀ k, s.controller.recent.contains s.controller.now k = true ↔ ∃ j ∈ h.jobs.all, j.key = k ∧
        ∃ x ∈ j.steps, (∃ o plan, x.round = .executing o plan) ∧
          s.controller.now - x.glance.controller.now ≤ settings.cacheTtlMs) := by
  obtain ⟨h, hhistory, rfl, hmoves, hh⟩ := (Sound.initial settings planner).history hrun
  obtain rfl : h.moves = moves := hmoves
  refine ⟨h, hhistory, rfl, hh.senders, hh.rounds, fun g hg => ?_, fun htick => ?_, fun e he => ?_, hh.queue,
    fun j hj => ⟨fun p current desired ps hq => ?_, fun x hx hnothing q hq => ?_, fun p current plan hq => ?_⟩,
    hh.contains_iff⟩
  · exact ⟨(hh.saw g hg).seen, Controller.pending_sorted _, (hh.saw g hg).mem_pending⟩
  · obtain ⟨hjobs, hqueue⟩ := hh.quiet htick
    exact ⟨hqueue, hjobs, fun e he => hh.queued_eq_nil htick he⟩
  · exact ⟨(hh.fits e he).queued_eq_nil, fun g look => (hh.fits e he).look look⟩
  · exact Job.plan_mem_calls (hh.came j hj) hq
  · exact Job.calls_of_findsNothing (hh.came j hj) hx hnothing hq
  · obtain ⟨o, hkey, hplanner, hcurrent, hcreated, hsome, hchecked⟩ := Job.execute_mem_calls (hh.came j hj) hq
    exact ⟨hsome, o, hkey, hplanner, hcurrent, hcreated, hchecked⟩

/-! One intent, from its update to the note of its key. -/

/-- A worker takes the key that the first tick has put there, and the plan is executed. -/
def plannedOnce : List (Move Unit) :=
  [.start 1, .updateIntent { key := "a" }, .send 0, .tick, .send 0, .send 0, .send 0, .take, .goOn 0 none, .goOn 0 none,
    .goOn 0 none, .goOn 0 (some (.observed (.ok {}))), .goOn 0 (some (.plan [{ name := "scale_out" }])), .goOn 0 none,
    .goOn 0 (some .done)]

theorem run_follows_intents_once :
    ∃ s h, (System.initial {} (some ())).run? plannedOnce = some s ∧
      (History.initial {} (some ())).run? plannedOnce = some h ∧ h.system = s ∧
      s.controller.recent.contains s.controller.now "a" = true ∧
      ∃ j ∈ h.jobs.all, j.key = "a" ∧ ∃ x ∈ j.steps, ∃ o plan, x.round = .executing o plan := by
  have hrun : ∃ s : System Unit, (System.initial {} (some ())).run? plannedOnce = some s ∧
      s.controller.recent.contains s.controller.now "a" = true := ⟨_, rfl, rfl⟩
  obtain ⟨s, hrun, hrecent⟩ := hrun
  obtain ⟨h, hhistory, hsystem, -, -, -, -, -, -, -, hcontains⟩ := run_follows_intents {} (some ()) plannedOnce hrun
  obtain ⟨j, hj, hkey, x, hx, hround, -⟩ := (hcontains "a").mp hrecent
  exact ⟨s, h, hrun, hhistory, hsystem, hrecent, j, hj, hkey, x, hx, hround⟩

end History
end Intendant
