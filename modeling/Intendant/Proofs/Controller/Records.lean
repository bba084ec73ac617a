import Intendant.Proofs.Controller.History

/-! # Histories agree with their systems

The records of a history are those of the callers and rounds at work (`History.Sound`): every move keeps them so
(`History.Sound.step`), and every run of a system has a history (`History.Sound.history`). -/

namespace Intendant
variable {π : Type}

namespace History
variable {settings : ControllerSettings} {planner : Option π} {h h' : History π} {s : System π} {m : Move π} {g : Glance π}
  {e : Errand π} {j : Job π} {x : RoundStep π}

/-! ### What a history keeps -/

/-- A look at the controller that was had at its moment. -/
structure Saw (settings : ControllerSettings) (planner : Option π) (h : History π) (g : Glance π) : Prop where
  earlier : g.moment < h.moves.length
  seen : ((System.initial settings planner).run? (h.moves.take g.moment)).map System.controller = some g.controller
  now_le : g.controller.now ≤ h.system.controller.now

/-- The records of a history agree with its system. -/
structure Sound (settings : ControllerSettings) (planner : Option π) (h : History π) : Prop where
  run : (System.initial settings planner).run? h.moves = some h.system
  senders : h.errands.active.map Errand.sender? = h.system.senders.map some
  rounds : h.jobs.active.map Job.round? = h.system.rounds.map some
  fits : ∀ e ∈ h.errands.all, e.Fits h.system.controller.closed
  came : ∀ j ∈ h.jobs.all, Came j.key j.steps j.round?
  saw : ∀ g ∈ h.glances, Saw settings planner h g
  queue : (h.errands.all.flatMap Errand.queued).Perm (h.jobs.all.map Job.key ++ h.system.controller.queue)
  noted : ∀ k t, h.system.controller.recent.entries.get? k = some t →
    ∃ j ∈ h.jobs.all, ∃ x ∈ j.steps, k ∈ x.round.inExecution ∧ x.glance.controller.now = t
  remembered : ∀ j ∈ h.jobs.all, ∀ x ∈ j.steps, ∀ k ∈ x.round.inExecution,
    h.system.controller.Remembers k x.glance.controller.now

theorem mem_glances_of_errand (he : e ∈ h.errands.all) (look : e.look? = some g) : g ∈ h.glances :=
  List.mem_append_left _ (List.mem_filterMap.mpr ⟨e, he, look⟩)

theorem mem_glances_of_job (hj : j ∈ h.jobs.all) (hx : x ∈ j.steps) : x.glance ∈ h.glances :=
  List.mem_append_right _ (List.mem_flatMap.mpr ⟨j, hj, List.mem_map_of_mem hx⟩)

theorem Sound.initial (settings : ControllerSettings) (planner : Option π) :
    Sound settings planner (.initial settings planner) where
  run := rfl
  senders := rfl
  rounds := rfl
  fits := nofun
  came := nofun
  saw := nofun
  queue := .refl _
  noted := nofun
  remembered := nofun

section
variable {errands : Roll (Errand π)} {jobs : Roll (Job π)}

/-- The history with one more move and what that made of its records. -/
def extended (h : History π) (m : Move π) (s : System π) (errands : Roll (Errand π)) (jobs : Roll (Job π)) : History π where
  system := s
  moves := h.moves ++ [m]
  errands := errands
  jobs := jobs

theorem Saw.extended (hsaw : Saw settings planner h g) (hs : System.Stepped h.system m s) :
    Saw settings planner (h.extended m s errands jobs) g where
  earlier := by
    rw [History.extended, List.length_append]
    exact Nat.lt_add_right _ hsaw.earlier
  seen := by
    rw [History.extended, List.take_append_of_le_length (Nat.le_of_lt hsaw.earlier)]
    exact hsaw.seen
  now_le := Nat.le_trans hsaw.now_le hs.now_le

theorem Sound.saw_glance (hh : Sound settings planner h) (hs : System.Stepped h.system m s) :
    Saw settings planner (h.extended m s errands jobs) h.glance where
  earlier := by
    rw [History.extended, List.length_append]
    exact Nat.lt_succ_self _
  seen := by
    rw [History.extended, glance, List.take_left, hh.run]
    rfl
  now_le := hs.now_le

/-- A move keeps the records sound if it only adds to them, and adds what it has seen and done. -/
theorem Sound.extended (hh : Sound settings planner h) (hs : h.system.step? m = some s)
    (senders : errands.active.map Errand.sender? = s.senders.map some)
    (rounds : jobs.active.map Job.round? = s.rounds.map some)
    (fits : ∀ e ∈ errands.all, e.Fits s.controller.closed)
    (looked : ∀ e ∈ errands.all, ∀ g, e.look? = some g → g ∈ h.glances ∨ g = h.glance)
    (came : ∀ j ∈ jobs.all, Came j.key j.steps j.round?)
    (stepped : ∀ j ∈ jobs.all, ∀ x ∈ j.steps, (∃ j₀ ∈ h.jobs.all, x ∈ j₀.steps) ∨
      x.glance = h.glance ∧ ∀ k ∈ x.round.inExecution, s.controller.Remembers k x.glance.controller.now)
    (queue : (errands.all.flatMap Errand.queued).Perm (jobs.all.map Job.key ++ s.controller.queue))
    (kept : ∀ j₀ ∈ h.jobs.all, ∃ j ∈ jobs.all, j₀.steps ⊆ j.steps)
    (noted : ∀ k t, s.controller.recent.entries.get? k = some t → h.system.controller.recent.entries.get? k = some t ∨
      ∃ j ∈ jobs.all, ∃ x ∈ j.steps, k ∈ x.round.inExecution ∧ x.glance.controller.now = t) :
    Sound settings planner (h.extended m s errands jobs) where
  run := by
    rw [History.extended, System.run?_concat, hh.run]
    exact hs
  senders := senders
  rounds := rounds
  fits := fits
  came := came
  saw g hg := by
    have hs := System.stepped_of_step? hs
    rcases List.mem_append.mp hg with hg | hg
    · obtain ⟨e, he, look⟩ := List.mem_filterMap.mp hg
      rcases looked e he g look with hg | rfl
      · exact (hh.saw g hg).extended hs
      · exact hh.saw_glance hs
    · obtain ⟨j, hj, hg⟩ := List.mem_flatMap.mp hg
      obtain ⟨x, hx, rfl⟩ := List.mem_map.mp hg
      rcases stepped j hj x hx with ⟨j₀, hj₀, hx₀⟩ | ⟨hnew, -⟩
      · exact (hh.saw _ (mem_glances_of_job hj₀ hx₀)).extended hs
      · exact hnew ▸ hh.saw_glance hs
  queue := queue
  noted k t hget := by
    rcases noted k t hget with hget | hnew
    · obtain ⟨j₀, hj₀, x, hx, hkey, hnow⟩ := hh.noted k t hget
      obtain ⟨j, hj, hsteps⟩ := kept j₀ hj₀
      exact ⟨j, hj, x, hsteps hx, hkey, hnow⟩
    · exact hnew
  remembered j hj x hx k hk := by
    rcases stepped j hj x hx with ⟨j₀, hj₀, hx₀⟩ | ⟨-, hnew⟩
    · exact (System.stepped_of_step? hs).remembers (hh.remembered j₀ hj₀ x hx₀ k hk)
        (hh.saw _ (mem_glances_of_job hj₀ hx₀)).now_le
    · exact hnew k hk

end

/-! ### One move -/

theorem Sound.enter (hh : Sound settings planner h) (hs : h.system.step? m = some s)
    (senders : s.senders = h.system.senders ++ m.newSenders) (rounds : s.rounds = h.system.rounds)
    (queue : s.controller.queue = h.system.controller.queue)
    (closed : h.system.controller.closed = true → s.controller.closed = true)
    (recent : ∀ k t, s.controller.recent.entries.get? k = some t → h.system.controller.recent.entries.get? k = some t) :
    Sound settings planner (h.extended m s (h.errands.enter (m.newSenders.map fun _ => {})) h.jobs) := by
  have hnew : m.newSenders.map some = (m.newSenders.map fun _ => ({} : Errand π)).map Errand.sender? := by
    cases m <;> rfl
  have hall : ∀ e ∈ (h.errands.enter (m.newSenders.map fun _ => {})).all, e ∈ h.errands.all ∨ e = {} := by
    intro e he
    rcases List.mem_append.mp he with he | he
    · rcases List.mem_append.mp he with he | he
      · exact .inl (List.mem_append_left _ he)
      · obtain ⟨-, -, rfl⟩ := List.mem_map.mp he
        exact .inr rfl
    · exact .inl (List.mem_append_right _ he)
  -- A caller that has just come has queued nothing.
  have hqueued : (h.errands.enter (m.newSenders.map fun _ => {})).all.flatMap Errand.queued =
      h.errands.all.flatMap Errand.queued := by
    have hnone : (m.newSenders.map fun _ => ({} : Errand π)).flatMap Errand.queued = [] := by
      cases m <;> rfl
    rw [Roll.all, Roll.enter, List.flatMap_append, List.flatMap_append, hnone, List.append_nil, ← List.flatMap_append]
    rfl
  refine hh.extended hs ?_ ?_ (fun e he => ?_) (fun e he g look => ?_) hh.came (fun j hj x hx => .inl ⟨j, hj, hx⟩) ?_
    (fun j hj => ⟨j, hj, List.Subset.refl _⟩) (fun k t hget => .inl (recent k t hget))
  · rw [Roll.enter, List.map_append, hh.senders, ← hnew, senders, List.map_append]
  · rw [hh.rounds, rounds]
  · rcases hall e he with he | rfl
    · exact (hh.fits e he).mono closed
    · exact .new
  · rcases hall e he with he | rfl
    · exact .inl (mem_glances_of_errand he look)
    · cases look
  · rw [hqueued, queue]
    exact hh.queue

theorem Sound.send (hh : Sound settings planner h) {before after : List Sender} {t : Sender} {c : Controller π}
    {rest : Option Sender} (senders : h.system.senders = before ++ t :: after) (hstep : t.Stepped h.system.controller c rest)
    (hsystem : s = { h.system with controller := c, senders := before ++ rest.toList ++ after })
    (hs : h.system.step? (.send before.length) = some s) :
    ∃ errands, h.step? (.send before.length) = some (h.extended (.send before.length) s errands h.jobs) ∧
      Sound settings planner (h.extended (.send before.length) s errands h.jobs) := by
  subst hsystem
  obtain ⟨e, others, he, hplace, hold, hupdate⟩ := Roll.exists_at (hh.senders.trans (by rw [senders]))
  obtain ⟨⟨keys, hqueue⟩, hclosed, hrecent⟩ := hstep.adds
  obtain ⟨hnew, hparts⟩ := hupdate (e.after h.glance c rest) rest fun _ => rfl
  have hmem : e ∈ h.errands.all := hold.mem_iff.mpr List.mem_cons_self
  have hothers : ∀ e' ∈ others, e' ∈ h.errands.all := fun e' he' => hold.mem_iff.mpr (List.mem_cons_of_mem _ he')
  have hkeys : c.queue.drop h.system.controller.queue.length = keys := by rw [hqueue, List.drop_left]
  refine ⟨h.errands.update before.length (e.after h.glance c rest) rest.isSome, ?_, hh.extended hs hparts hh.rounds
    (fun e' he' => ?_) (fun e' he' g look => ?_) hh.came (fun j hj x hx => .inl ⟨j, hj, hx⟩) ?_
    (fun j hj => ⟨j, hj, List.Subset.refl _⟩) (fun k t hget => .inl (hrecent ▸ hget))⟩
  · rw [step?, hs]
    simp only [Option.bind_eq_bind, Option.bind_some, hplace, he, Sender.sendStep?_of_stepped hstep]
    rfl
  · rcases List.mem_cons.mp (hnew.mem_iff.mp he') with rfl | he'
    · exact (hh.fits e hmem).after he hstep
    · exact (hh.fits e' (hothers e' he')).mono fun hc => hclosed.trans hc
  · rcases List.mem_cons.mp (hnew.mem_iff.mp he') with rfl | he'
    · rcases hlook : e.look? with _ | g₀
      · rw [Errand.after, hlook] at look
        exact .inr (Option.some.inj look).symm
      · rw [Errand.after, hlook] at look
        cases look
        exact .inl (mem_glances_of_errand hmem hlook)
    · exact .inl (mem_glances_of_errand (hothers e' he') look)
  -- What the caller has added to what it has queued is what it has added to the queue.
  · have hbefore := (hold.flatMap_right Errand.queued).symm.trans hh.queue
    refine (hnew.flatMap_right Errand.queued).trans ?_
    rw [List.flatMap_cons] at hbefore ⊢
    dsimp only [Errand.after, glance]
    rw [hkeys, hqueue, List.append_assoc, ← List.append_assoc (h.jobs.all.map Job.key)]
    refine (List.Perm.append_left _ List.perm_append_comm).trans ?_
    rw [← List.append_assoc]
    exact hbefore.append_right keys

theorem Sound.take (hh : Sound settings planner h) {k : String} {ks : List String} {idle : Nat}
    (queue : h.system.controller.queue = k :: ks)
    (hsystem : s = { h.system with
      controller := { h.system.controller with queue := ks }
      idle := idle
      rounds := h.system.rounds ++ [.starting k] })
    (hs : h.system.step? .take = some s) :
    ∃ jobs, h.step? .take = some (h.extended .take s h.errands jobs) ∧
      Sound settings planner (h.extended .take s h.errands jobs) := by
  subst hsystem
  have hall : (h.jobs.enter [{ key := k, round? := some (.starting k) }]).all.Perm
      ({ key := k, round? := some (.starting k) } :: h.jobs.all) := by
    rw [Roll.all, Roll.enter, List.append_assoc]
    exact List.perm_middle
  refine ⟨h.jobs.enter [{ key := k, round? := some (.starting k) }], ?_, hh.extended hs hh.senders ?_ hh.fits
    (fun e he g look => .inl (mem_glances_of_errand he look)) (fun j hj => ?_) (fun j hj x hx => ?_) ?_
    (fun j hj => ⟨j, hall.mem_iff.mpr (List.mem_cons_of_mem _ hj), List.Subset.refl _⟩) (fun k t hget => .inl hget)⟩
  · have herrands : h.errands.enter ((Move.take : Move π).newSenders.map fun _ => {}) = h.errands := Roll.enter_nil _
    rw [step?, hs]
    simp only [Option.bind_eq_bind, Option.bind_some, queue, List.head?_cons, herrands]
    rfl
  · rw [Roll.enter, List.map_append, hh.rounds, List.map_append]
    rfl
  · rcases List.mem_cons.mp (hall.mem_iff.mp hj) with rfl | hj
    · exact .taken
    · exact hh.came j hj
  · rcases List.mem_cons.mp (hall.mem_iff.mp hj) with rfl | hj
    · cases hx
    · exact .inl ⟨j, hj, hx⟩
  · have hbefore := hh.queue
    rw [queue] at hbefore
    exact hbefore.trans (List.perm_middle.trans ((hall.map Job.key).symm.append_right ks))

/-- A round notes its key when it comes from the execution of its plan, and only then. -/
theorem get?_recent_of_stepped {c c' : Controller π} {r : Round π} {reply : Option Reply} {rest : Option (Round π)}
    (hstep : r.Stepped c reply c' rest) {k : String} {t : Nat} :
    (c'.recent.entries.get? k = some t → c.recent.entries.get? k = some t ∨ k ∈ r.inExecution ∧ c.now = t) ∧
      (k ∈ r.inExecution → c'.Remembers k c.now) := by
  cases hstep with
  | @note o plan =>
    refine ⟨fun hget => ?_, fun hk _ => ?_⟩
    · rw [Recent.get?_put] at hget
      split at hget
      · rename_i hkey
        cases hget
        exact .inr ⟨List.mem_singleton.mpr hkey, rfl⟩
      · exact .inl hget
    · exact ⟨c.now, Nat.le_refl _, (Recent.get?_put ..).trans (if_pos (List.mem_singleton.mp hk))⟩
  | _ => exact ⟨.inl, nofun⟩

theorem Sound.goOn (hh : Sound settings planner h) {before after : List (Round π)} {r : Round π} {reply : Option Reply}
    {c : Controller π} {rest : Option (Round π)} (rounds : h.system.rounds = before ++ r :: after)
    (hstep : r.Stepped h.system.controller reply c rest)
    (hsystem : s = { h.system with
      controller := c
      rounds := before ++ rest.toList ++ after
      idle := if rest.isNone then h.system.idle + 1 else h.system.idle })
    (hs : h.system.step? (.goOn before.length reply) = some s) :
    ∃ jobs, h.step? (.goOn before.length reply) = some (h.extended (.goOn before.length reply) s h.errands jobs) ∧
      Sound settings planner (h.extended (.goOn before.length reply) s h.errands jobs) := by
  subst hsystem
  obtain ⟨j, others, hj, hplace, hold, hupdate⟩ := Roll.exists_at (hh.rounds.trans (by rw [rounds]))
  obtain ⟨hqueue, hclosed⟩ := hstep.leaves
  obtain ⟨hnew, hparts⟩ := hupdate (j.after ⟨h.glance, r, reply⟩ rest) rest fun _ => rfl
  have hmem : j ∈ h.jobs.all := hold.mem_iff.mpr List.mem_cons_self
  have hothers : ∀ j' ∈ others, j' ∈ h.jobs.all := fun j' hj' => hold.mem_iff.mpr (List.mem_cons_of_mem _ hj')
  have hjob : j.after ⟨h.glance, r, reply⟩ rest ∈
      (h.jobs.update before.length (j.after ⟨h.glance, r, reply⟩ rest) rest.isSome).all := hnew.mem_iff.mpr List.mem_cons_self
  refine ⟨h.jobs.update before.length (j.after ⟨h.glance, r, reply⟩ rest) rest.isSome, ?_, hh.extended hs hh.senders hparts
    (fun e he => (hh.fits e he).mono fun hc => hclosed.trans hc)
    (fun e he g look => .inl (mem_glances_of_errand he look)) (fun j' hj' => ?_) (fun j' hj' x hx => ?_) ?_
    (fun j' hj' => ?_) (fun k t hget => ?_)⟩
  · have herrands : h.errands.enter ((Move.goOn before.length reply : Move π).newSenders.map fun _ => {}) = h.errands :=
      Roll.enter_nil _
    rw [step?, hs]
    simp only [Option.bind_eq_bind, Option.bind_some, hplace, hj, Round.step?_of_stepped hstep, herrands]
    rfl
  · rcases List.mem_cons.mp (hnew.mem_iff.mp hj') with rfl | hj'
    · exact .went (hj ▸ hh.came j hmem) hstep
    · exact hh.came j' (hothers j' hj')
  · rcases List.mem_cons.mp (hnew.mem_iff.mp hj') with rfl | hj'
    · rcases List.mem_cons.mp hx with rfl | hx
      · exact .inr ⟨rfl, fun k hk => (get?_recent_of_stepped hstep (t := 0)).2 hk⟩
      · exact .inl ⟨j, hmem, hx⟩
    · exact .inl ⟨j', hothers j' hj', hx⟩
  · rw [hqueue]
    have hkeys : (h.jobs.update before.length (j.after ⟨h.glance, r, reply⟩ rest) rest.isSome).all.map Job.key |>.Perm
        (h.jobs.all.map Job.key) := (hnew.map Job.key).trans (hold.map Job.key).symm
    exact hh.queue.trans (hkeys.symm.append_right _)
  · rcases List.mem_cons.mp (hold.mem_iff.mp hj') with rfl | hj'
    · exact ⟨_, hjob, List.subset_cons_self ..⟩
    · exact ⟨j', hnew.mem_iff.mpr (List.mem_cons_of_mem _ hj'), List.Subset.refl _⟩
  -- A key that is noted anew comes from the step that the round has just made.
  · rcases (get?_recent_of_stepped hstep).1 hget with hget | ⟨hk, hnow⟩
    · exact .inl hget
    · exact .inr ⟨_, hjob, _, List.mem_cons_self, hk, hnow⟩

theorem Sound.stall (hh : Sound settings planner h) {before after : List (Round π)} {r : Round π}
    (rounds : h.system.rounds = before ++ r :: after)
    (hsystem : s = { h.system with rounds := before ++ after, stalled := h.system.stalled ++ [r] })
    (hs : h.system.step? (.stall before.length) = some s) :
    ∃ jobs, h.step? (.stall before.length) = some (h.extended (.stall before.length) s h.errands jobs) ∧
      Sound settings planner (h.extended (.stall before.length) s h.errands jobs) := by
  subst hsystem
  obtain ⟨j, others, -, hplace, hold, hupdate⟩ := Roll.exists_at (hh.rounds.trans (by rw [rounds]))
  obtain ⟨hnew, hparts⟩ := hupdate j none nofun
  have hall : (h.jobs.update before.length j false).all.Perm h.jobs.all := hnew.trans hold.symm
  rw [Option.toList_none, List.append_nil] at hparts
  refine ⟨h.jobs.update before.length j false, ?_, hh.extended hs hh.senders hparts hh.fits
    (fun e he g look => .inl (mem_glances_of_errand he look)) (fun j' hj' => hh.came j' (hall.mem_iff.mp hj'))
    (fun j' hj' x hx => .inl ⟨j', hall.mem_iff.mp hj', hx⟩) (hh.queue.trans ((hall.map Job.key).symm.append_right _))
    (fun j' hj' => ⟨j', hall.mem_iff.mpr hj', List.Subset.refl _⟩) (fun k t hget => .inl hget)⟩
  have herrands : h.errands.enter ((Move.stall before.length : Move π).newSenders.map fun _ => {}) = h.errands :=
    Roll.enter_nil _
  rw [step?, hs]
  simp only [Option.bind_eq_bind, Option.bind_some, hplace, herrands]
  rfl

theorem Sound.step (hh : Sound settings planner h) (hs : h.system.step? m = some s) :
    ∃ h', h.step? m = some h' ∧ h'.system = s ∧ h'.moves = h.moves ++ [m] ∧ Sound settings planner h' := by
  have hstepped := System.stepped_of_step? hs
  cases hstepped with
  | start =>
    refine ⟨_, ?_, rfl, rfl, hh.enter hs (List.append_nil _).symm rfl rfl (fun hc => ?_) fun _ _ => id⟩
    · rw [step?, hs]
      rfl
    · exact (Bool.or_eq_true ..).mpr (.inl hc)
  | leave =>
    refine ⟨_, ?_, rfl, rfl, hh.enter hs (List.append_nil _).symm rfl rfl (fun hc => ?_) fun _ _ => id⟩
    · rw [step?, hs]
      rfl
    · exact (Bool.or_eq_true ..).mpr (.inl hc)
  | event he =>
    refine ⟨_, ?_, rfl, rfl, hh.enter hs rfl rfl he.queue (fun hc => he.closed.trans hc) fun _ _ => he.get?_recent.1⟩
    rw [step?, hs]
    cases he <;> rfl
  | send senders hstep =>
    obtain ⟨errands, hstep, hsound⟩ := hh.send senders hstep rfl hs
    exact ⟨_, hstep, rfl, rfl, hsound⟩
  | take workers queue =>
    obtain ⟨jobs, hstep, hsound⟩ := hh.take queue rfl hs
    exact ⟨_, hstep, rfl, rfl, hsound⟩
  | goOn rounds hstep =>
    obtain ⟨jobs, hstep, hsound⟩ := hh.goOn rounds hstep rfl hs
    exact ⟨_, hstep, rfl, rfl, hsound⟩
  | stall rounds waits =>
    obtain ⟨jobs, hstep, hsound⟩ := hh.stall rounds rfl hs
    exact ⟨_, hstep, rfl, rfl, hsound⟩

theorem Sound.history (hh : Sound settings planner h) {moves : List (Move π)} (hrun : h.system.run? moves = some s) :
    ∃ h', h.run? moves = some h' ∧ h'.system = s ∧ h'.moves = h.moves ++ moves ∧ Sound settings planner h' := by
  -- Over the moves; the history after the first one is that of a run from there.
  induction moves generalizing h with
  | nil =>
    cases hrun
    exact ⟨h, rfl, rfl, (List.append_nil _).symm, hh⟩
  | cons m moves ih =>
    obtain ⟨s₁, hstep, hrest⟩ := Option.bind_eq_some_iff.mp hrun
    obtain ⟨h₁, hrecorded, rfl, hmoves, hh⟩ := hh.step hstep
    obtain ⟨h', hrest, hsystem, hmoves', hh⟩ := ih hh hrest
    refine ⟨h', ?_, hsystem, ?_, hh⟩
    · rw [run?, hrecorded, Option.bind_some, hrest]
    · rw [hmoves', hmoves, List.append_assoc, List.singleton_append]

end History
end Intendant
