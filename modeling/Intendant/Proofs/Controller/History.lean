import Intendant.Proofs.Controller.Steps

/-! # What callers and rounds have done

A history is a system with a record of all that its callers and its rounds have done so far. Its steps are those of the
system (`History.run?_isSome`); the records only tell what was seen and done on the way. -/

namespace Intendant
variable {π : Type}

/-- A look at the controller: the number of moves before it, and what there was to see. -/
structure Glance (π : Type) where
  moment : Nat
  controller : Controller π

/-- A caller with what it has done. -/
structure Errand (π : Type) where
  /-- When it looked for the keys to be queued. -/
  look? : Option (Glance π) := none
  /-- The keys that it has queued. -/
  queued : List String := []
  /-- What is left of it. -/
  sender? : Option Sender := some .starting

/-- A step that a round has taken. -/
structure RoundStep (π : Type) where
  glance : Glance π
  round : Round π
  reply : Option Reply

/-- A round with the steps that it has taken, the latest one first. -/
structure Job (π : Type) where
  key : String
  steps : List (RoundStep π) := []
  /-- What is left of it. -/
  round? : Option (Round π)

/-- Those at work, in the order of their places, and those that do nothing more. -/
structure Roll (α : Type) where
  active : List α := []
  inactive : List α := []

namespace Roll
variable {α : Type}

/-- All of them, those at work first. -/
def all (r : Roll α) : List α := r.active ++ r.inactive

/-- The roll with more of them at work. -/
def enter (r : Roll α) (xs : List α) : Roll α := { r with active := r.active ++ xs }

/-- Notes what has become of the one at a place. -/
def update (r : Roll α) (index : Nat) (x : α) (isActive : Bool) : Roll α :=
  if isActive then { r with active := r.active.set index x }
  else { active := r.active.eraseIdx index, inactive := r.inactive ++ [x] }

end Roll

/-- A system with all that its callers and rounds have done. -/
structure History (π : Type) where
  system : System π
  moves : List (Move π) := []
  errands : Roll (Errand π) := {}
  jobs : Roll (Job π) := {}

namespace Errand

/-- A caller after a step. In its first step it looks for its keys. -/
def after (e : Errand π) (g : Glance π) (c : Controller π) (rest : Option Sender) : Errand π where
  look? := e.look?.or (some g)
  queued := e.queued ++ c.queue.drop g.controller.queue.length
  sender? := rest

end Errand

namespace Job

/-- A round after a step, with what is left of it. -/
def after (j : Job π) (x : RoundStep π) (rest : Option (Round π)) : Job π :=
  { j with steps := x :: j.steps, round? := rest }

/-- The stages a round has been in, the latest first. -/
def rounds (j : Job π) : List (Round π) := j.round?.toList ++ j.steps.map (·.round)

/-- All that the round has asked of the world outside. -/
def calls (j : Job π) : List (Request π) := j.rounds.filterMap Round.request?

end Job

namespace History

/-- The history of a system in which nothing has happened yet. -/
def initial (settings : ControllerSettings) (planner : Option π) : History π where
  system := .initial settings planner

/-- A look at the controller as it is now. -/
def glance (h : History π) : Glance π := ⟨h.moves.length, h.system.controller⟩

/-- All looks that callers and rounds have had at the controller. -/
def glances (h : History π) : List (Glance π) :=
  h.errands.all.filterMap Errand.look? ++ h.jobs.all.flatMap fun j => j.steps.map (·.glance)

/-- The history after a move, where the move is possible. -/
def step? (h : History π) (m : Move π) : Option (History π) := do
  let system ← h.system.step? m
  let h' := { h with system, moves := h.moves ++ [m], errands := h.errands.enter (m.newSenders.map fun _ => {}) }
  match m with
  | .send index =>
    let e ← h.errands.active[index]?
    let (c, rest) ← System.sendStep? h.system.controller (← e.sender?)
    return { h' with errands := h.errands.update index (e.after h.glance c rest) rest.isSome }
  | .take =>
    let k ← h.system.controller.queue.head?
    return { h' with jobs := h.jobs.enter [{ key := k, round? := some (.starting k) }] }
  | .goOn index reply =>
    let j ← h.jobs.active[index]?
    let r ← j.round?
    let (_, rest) ← r.step? h.system.controller reply
    return { h' with jobs := h.jobs.update index (j.after ⟨h.glance, r, reply⟩ rest) rest.isSome }
  | .stall index =>
    let j ← h.jobs.active[index]?
    return { h' with jobs := h.jobs.update index j false }
  | _ => return h'

/-- The history after moves, each of which is possible when it is made. -/
def run? (h : History π) : List (Move π) → Option (History π)
  | [] => some h
  | m :: moves => (h.step? m).bind (run? · moves)

end History

/-! ### Rolls -/

namespace Roll
variable {α : Type}

theorem enter_nil (r : Roll α) : r.enter [] = r := by rw [enter, List.append_nil]

theorem perm_update (before after : List α) (x₀ x : α) (inactive : List α) (isActive : Bool) :
    (update ⟨before ++ x₀ :: after, inactive⟩ before.length x isActive).all.Perm (x :: (before ++ after ++ inactive)) := by
  cases isActive with
  | true =>
    rw [update, if_pos rfl, all, Places.set_split, List.append_assoc, List.append_assoc]
    exact List.perm_middle
  | false =>
    rw [update, if_neg Bool.false_ne_true, all, Places.eraseIdx_split, ← List.append_assoc]
    exact List.perm_append_singleton x _

/-- Where the active ones match tasks one by one, the one that matches a task is found by the place of the task, and
    changing it changes no other. -/
theorem exists_at {β : Type} {f : α → Option β} {r : Roll α} {before after : List β} {y : β}
    (tasks : r.active.map f = (before ++ y :: after).map some) :
    ∃ x₀ others, f x₀ = some y ∧ r.active[before.length]? = some x₀ ∧ r.all.Perm (x₀ :: others) ∧
      ∀ x rest, (rest.isSome → f x = rest) → (r.update before.length x rest.isSome).all.Perm (x :: others) ∧
        (r.update before.length x rest.isSome).active.map f = (before ++ rest.toList ++ after).map some := by
  obtain ⟨active, inactive⟩ := r
  rw [List.map_append, List.map_cons] at tasks
  obtain ⟨b, tail, rfl, hb, htail⟩ := List.map_eq_append_iff.mp tasks
  obtain ⟨x₀, a, rfl, hx₀, ha⟩ := List.map_eq_cons_iff.mp htail
  have hlength : b.length = before.length := by
    have hlengths := congrArg List.length hb
    rwa [List.length_map, List.length_map] at hlengths
  rw [← hlength]
  refine ⟨x₀, b ++ a ++ inactive, hx₀, Places.getElem?_split b a x₀, ?_, fun x rest hx => ⟨perm_update b a x₀ x _ _, ?_⟩⟩
  · rw [all, List.append_assoc, List.append_assoc]
    exact List.perm_middle
  · cases rest with
    | none =>
      rw [update, Option.isSome_none, if_neg Bool.false_ne_true, Places.eraseIdx_split]
      simp [hb, ha]
    | some z =>
      rw [update, Option.isSome_some, if_pos rfl, Places.set_split]
      simp [hb, ha, hx rfl]

end Roll

/-! ### Callers -/

/-- What a caller has done so far, by what is left of it. -/
inductive Errand.Fits (closed : Bool) : Errand π → Prop
  | new : Fits closed {}
  | cold {g : Glance π} (cold : g.controller.warm = false) : Fits closed ⟨some g, [], none⟩
  | sending {g : Glance π} {queued rest : List String} (warm : g.controller.warm = true)
      (pending : g.controller.pending = queued ++ rest) : Fits closed ⟨some g, queued, some (.sending rest)⟩
  | sent {g : Glance π} (warm : g.controller.warm = true) : Fits closed ⟨some g, g.controller.pending, none⟩
  | cut {g : Glance π} {queued rest : List String} (warm : g.controller.warm = true)
      (pending : g.controller.pending = queued ++ rest) (cut : closed = true) : Fits closed ⟨some g, queued, none⟩

namespace Errand
variable {e : Errand π} {g : Glance π} {t : Sender} {c : Controller π} {rest : Option Sender} {closed closed' : Bool}

theorem Fits.mono (h : e.Fits closed) (hclosed : closed = true → closed' = true) : e.Fits closed' := by
  cases h with
  | new => exact .new
  | cold hcold => exact .cold hcold
  | sending warm pending => exact .sending warm pending
  | sent warm => exact .sent warm
  | cut warm pending cut => exact .cut warm pending (hclosed cut)

theorem Fits.after (h : e.Fits g.controller.closed) (sender : e.sender? = some t) (hstep : t.Stepped g.controller c rest) :
    (e.after g c rest).Fits c.closed := by
  have hqueued : ∀ q : List String, q ++ g.controller.queue.drop g.controller.queue.length = q := by
    intro q
    rw [List.drop_length, List.append_nil]
  cases h with
  | new =>
    cases sender
    cases hstep with
    | look warm =>
      rw [Errand.after, hqueued]
      exact .sending warm rfl
    | rest cold =>
      rw [Errand.after, hqueued]
      exact .cold cold
  | @sending g₀ queued keys warm pending =>
    cases sender
    cases hstep with
    | @queue k ks =>
      have hkey : (g.controller.queue ++ [k]).drop g.controller.queue.length = [k] := List.drop_left ..
      rw [Errand.after]
      dsimp only
      rw [hkey]
      refine .sending warm ?_
      rw [pending, List.append_assoc]
      rfl
    | giveUp hclosed =>
      rw [Errand.after, hqueued]
      exact .cut warm pending hclosed
    | done =>
      rw [List.append_nil] at pending
      rw [Errand.after, hqueued, ← pending]
      exact .sent warm
  | _ => cases sender

/-- All that a caller has queued it picked when it looked. -/
theorem Fits.look (h : e.Fits closed) (look : e.look? = some g) :
    (g.controller.warm = false → e.queued = []) ∧ (g.controller.warm = true → ∃ rest, g.controller.pending = e.queued ++ rest ∧
      (e.sender? = some (.sending rest) ∨ e.sender? = none ∧ (rest = [] ∨ closed = true))) := by
  cases h with
  | new => cases look
  | cold cold =>
    cases look
    exact ⟨fun _ => rfl, fun warm => absurd (warm.symm.trans cold) nofun⟩
  | sending warm pending =>
    cases look
    exact ⟨fun cold => absurd (warm.symm.trans cold) nofun, fun _ => ⟨_, pending, .inl rfl⟩⟩
  | sent warm =>
    cases look
    exact ⟨fun cold => absurd (warm.symm.trans cold) nofun,
      fun _ => ⟨[], (List.append_nil _).symm, .inr ⟨rfl, .inl rfl⟩⟩⟩
  | cut warm pending cut =>
    cases look
    exact ⟨fun cold => absurd (warm.symm.trans cold) nofun,
      fun _ => ⟨_, pending, .inr ⟨rfl, .inr cut⟩⟩⟩

theorem Fits.queued_eq_nil (h : e.Fits closed) (look : e.look? = none) : e.queued = [] := by
  cases h with
  | new => rfl
  | _ => cases look

end Errand

/-! ### Rounds -/

/-- The steps of a round from its key to what is left of it. -/
inductive Came (key : String) : List (RoundStep π) → Option (Round π) → Prop
  | taken : Came key [] (some (.starting key))
  | went {x : RoundStep π} {steps : List (RoundStep π)} {c : Controller π} {rest : Option (Round π)}
      (before : Came key steps (some x.round)) (step : x.round.Stepped x.glance.controller x.reply c rest) :
      Came key (x :: steps) rest

/-- A step that finds no planner, no intent or no state of the target. -/
def RoundStep.FindsNothing (x : RoundStep π) : Prop :=
  (∃ key, x.round = .starting key ∧ x.glance.controller.planner = none) ∨
    (∃ key p, x.round = .withPlanner key p ∧ x.glance.controller.intents.get? key = none) ∨
    ∃ e, x.reply = some (.observed (.error e))

/-- A round has read this intent of its key. -/
def HasRead (key : String) (steps : List (RoundStep π)) (p : π) (i : Intent) : Prop :=
  ∃ x ∈ steps, x.round = .withPlanner key p ∧ x.glance.controller.intents.get? key = some i

/-- The round was given a plan for what it had observed. -/
def HasCreated (steps : List (RoundStep π)) (o : Observation π) (plan : List Action) : Prop :=
  ∃ x ∈ steps, x.round = .planning o ∧ x.reply = some (.plan plan)

/-- What a round works with comes from its own steps. -/
def Backed (key : String) (steps : List (RoundStep π)) : Round π → Prop
  | .starting k => k = key
  | .withPlanner k _ => k = key
  | .withIntent k p i => k = key ∧ HasRead key steps p i
  | .observing k p i _ => k = key ∧ HasRead key steps p i
  | .planning o => o.key = key ∧ ∃ i, HasRead key steps o.planner i ∧ o.desired = { intent := i }
  | .planned o plan => o.key = key ∧ HasCreated steps o plan
  | .executing o plan => o.key = key ∧ HasCreated steps o plan ∧ plan ≠ [] ∧
      ∃ x ∈ steps, x.round = .planned o plan ∧ x.glance.controller.paused = false
  | .reviewing o _ => o.key = key
  | .tracing o _ => o.key = key

section
variable {key : String} {x : RoundStep π} {steps steps' : List (RoundStep π)} {r : Round π} {rest : Option (Round π)}

theorem Backed.mono (h : Backed key steps r) (hsteps : steps ⊆ steps') : Backed key steps' r := by
  have hread : ∀ {p : π} {i : Intent}, HasRead key steps p i → HasRead key steps' p i :=
    fun ⟨x, hx, hread⟩ => ⟨x, hsteps hx, hread⟩
  have hcreated : ∀ {o : Observation π} {plan : List Action}, HasCreated steps o plan → HasCreated steps' o plan :=
    fun ⟨x, hx, hcreated⟩ => ⟨x, hsteps hx, hcreated⟩
  cases r with
  | withIntent k p i => exact ⟨h.1, hread h.2⟩
  | observing k p i ps => exact ⟨h.1, hread h.2⟩
  | planning o =>
    obtain ⟨hkey, i, hi, hdesired⟩ := h
    exact ⟨hkey, i, hread hi, hdesired⟩
  | planned o plan => exact ⟨h.1, hcreated h.2⟩
  | executing o plan =>
    obtain ⟨hkey, hplan, hsome, x, hx, hchecked⟩ := h
    exact ⟨hkey, hcreated hplan, hsome, x, hsteps hx, hchecked⟩
  | _ => exact h

theorem Backed.key_eq (h : Backed key steps r) : r.key = key := by
  cases r with
  | starting k => exact h
  | withPlanner k p => exact h
  | reviewing o plan => exact h
  | tracing o plan => exact h
  | _ => exact h.1

theorem Came.backed (h : Came key steps (some r)) : Backed key steps r := by
  generalize hrest : some r = rest at h
  induction h generalizing r with
  | taken =>
    cases hrest
    rfl
  | @went x steps c rest before step ih =>
    have hx : Backed key (x :: steps) x.round := (ih rfl).mono (List.subset_cons_self ..)
    obtain ⟨g, r₀, reply⟩ := x
    subst hrest
    cases step with
    | find => exact hx
    | read intent =>
      cases hx
      exact ⟨rfl, _, List.mem_cons_self, rfl, intent⟩
    | profile => exact hx
    | observe => exact ⟨hx.1, _, hx.2, rfl⟩
    | plan => exact ⟨hx.1, _, List.mem_cons_self, rfl, rfl⟩
    | execute some_action running => exact ⟨hx.1, hx.2, some_action, _, List.mem_cons_self, rfl, running⟩
    | skip => exact hx.1
    | note => exact hx.1
    | review => exact hx

theorem Came.before (h : Came key steps rest) (hx : x ∈ steps) : ∃ older, older ⊆ steps ∧ Came key older (some x.round) := by
  induction h with
  | taken => cases hx
  | @went y steps c rest before step ih =>
    rcases List.mem_cons.mp hx with rfl | hx
    · exact ⟨steps, List.subset_cons_self .., before⟩
    · obtain ⟨older, holder, hcame⟩ := ih hx
      exact ⟨older, List.subset_cons_of_subset _ holder, hcame⟩

theorem Round.Stepped.stepsLeft_lt {c c' : Controller π} {r r' : Round π} {reply : Option Reply}
    (h : r.Stepped c reply c' (some r')) : r'.stepsLeft < r.stepsLeft := by
  cases h <;> simp [Round.stepsLeft]

theorem Came.stepsLeft_lt (h : Came key steps (some r)) (hx : x ∈ steps) : r.stepsLeft < x.round.stepsLeft := by
  generalize hrest : some r = rest at h
  induction h generalizing r with
  | taken => cases hx
  | @went y steps c rest before step ih =>
    subst hrest
    rcases List.mem_cons.mp hx with rfl | hx
    · exact step.stepsLeft_lt
    · exact Nat.lt_trans step.stepsLeft_lt (ih hx rfl)

theorem RoundStep.FindsNothing.ends {c : Controller π} (h : x.FindsNothing)
    (step : x.round.Stepped x.glance.controller x.reply c rest) : rest = none ∧ 6 ≤ x.round.stepsLeft := by
  obtain ⟨g, r, reply⟩ := x
  rcases h with ⟨key, hround, hnone⟩ | ⟨key, p, hround, hnone⟩ | ⟨e, hreply⟩
  · dsimp only at hround
    subst hround
    cases step with
    | find planner => exact absurd (planner.symm.trans hnone) nofun
    | unplanned => exact ⟨rfl, by simp [Round.stepsLeft]⟩
  · dsimp only at hround
    subst hround
    cases step with
    | read intent => exact absurd (intent.symm.trans hnone) nofun
    | gone => exact ⟨rfl, by simp [Round.stepsLeft]⟩
  · dsimp only at hreply
    subst hreply
    cases step with
    | unobserved => exact ⟨rfl, by simp [Round.stepsLeft]⟩

/-- A step that finds nothing is the last one, and it comes before there is anything to plan. -/
theorem Came.of_findsNothing (h : Came key steps rest) (hx : x ∈ steps) (hnothing : x.FindsNothing) :
    rest = none ∧ ∀ y ∈ steps, 6 ≤ y.round.stepsLeft := by
  induction h with
  | taken => cases hx
  | @went y steps c rest before step ih =>
    rcases List.mem_cons.mp hx with rfl | hx
    · obtain ⟨hrest, hleft⟩ := hnothing.ends step
      refine ⟨hrest, fun y hy => ?_⟩
      rcases List.mem_cons.mp hy with rfl | hy
      · exact hleft
      · exact Nat.le_trans hleft (Nat.le_of_lt (before.stepsLeft_lt hy))
    -- An earlier step that finds nothing would have been the last one.
    · exact absurd (ih hx).1 nofun

theorem Round.observe_of_request? {q : Request π} (h : r.request? = some q) (hleft : 6 ≤ r.stepsLeft) :
    ∃ i ps, q = .observe i ps := by
  cases r with
  | observing key p i ps =>
    cases h
    exact ⟨i, ps, rfl⟩
  | starting key => cases h
  | withPlanner key p => cases h
  | withIntent key p i => cases h
  | planned o plan => cases h
  | _ => simp [Round.stepsLeft] at hleft

end

namespace Job
variable {j : Job π} {q : Request π}

/-- All that a round asks for comes from a round that it is or was, and that came to it by its own steps. -/
theorem exists_round_of_mem_calls (h : Came j.key j.steps j.round?) (hq : q ∈ j.calls) :
    ∃ r ∈ j.rounds, r.request? = some q ∧ Backed j.key j.steps r := by
  obtain ⟨r, hr, hrequest⟩ := List.mem_filterMap.mp hq
  refine ⟨r, hr, hrequest, ?_⟩
  rcases List.mem_append.mp hr with hr | hr
  · exact Came.backed (Option.mem_toList.mp hr ▸ h)
  · obtain ⟨x, hx, rfl⟩ := List.mem_map.mp hr
    obtain ⟨older, holder, hcame⟩ := h.before hx
    exact hcame.backed.mono holder

theorem plan_mem_calls (h : Came j.key j.steps j.round?) {p : π} {current desired : State} {ps : Profiles}
    (hq : .plan p current desired ps ∈ j.calls) : ∃ i, HasRead j.key j.steps p i ∧ desired = { intent := i } := by
  obtain ⟨r, -, hrequest, hbacked⟩ := exists_round_of_mem_calls h hq
  cases r with
  | planning o =>
    cases hrequest
    exact hbacked.2
  | _ => cases hrequest

theorem execute_mem_calls (h : Came j.key j.steps j.round?) {p : π} {current : State} {plan : List Action}
    (hq : .execute p current plan ∈ j.calls) :
    ∃ o : Observation π, o.key = j.key ∧ o.planner = p ∧ o.current = current ∧ HasCreated j.steps o plan ∧ plan ≠ [] ∧
      ∃ x ∈ j.steps, x.round = .planned o plan ∧ x.glance.controller.paused = false := by
  obtain ⟨r, -, hrequest, hbacked⟩ := exists_round_of_mem_calls h hq
  cases r with
  | executing o plan' =>
    cases hrequest
    obtain ⟨hkey, hcreated, hsome, hchecked⟩ := hbacked
    exact ⟨o, hkey, rfl, rfl, hcreated, hsome, hchecked⟩
  | _ => cases hrequest

theorem calls_of_findsNothing (h : Came j.key j.steps j.round?) {x : RoundStep π} (hx : x ∈ j.steps)
    (hnothing : x.FindsNothing) (hq : q ∈ j.calls) : ∃ i ps, q = .observe i ps := by
  obtain ⟨hround, hleft⟩ := h.of_findsNothing hx hnothing
  obtain ⟨r, hr, hrequest, -⟩ := exists_round_of_mem_calls h hq
  rw [rounds, hround, Option.toList_none, List.nil_append] at hr
  obtain ⟨y, hy, rfl⟩ := List.mem_map.mp hr
  exact Round.observe_of_request? hrequest (hleft y hy)

end Job

end Intendant
