import Mathlib.Data.List.Induction
import Mathlib.Order.Nat
import Intendant.Controller.System
import Intendant.Proofs.Controller.Basic
import Intendant.Proofs.Places

/-! # Steps of a controller at work

Everything that a controller and its tasks can do, case by case (`System.stepped_of_step?`). Events from outside change
the controller only; a caller only ever adds to the queue, and a round only ever notes a key as a recent one. -/

namespace Intendant
variable {π : Type}

/-! ### Events -/

/-- An event from outside, and what it makes of the controller. -/
inductive Controller.Event (c : Controller π) : Move π → Controller π → Prop
  | updateIntent (i : Intent) : Event c (.updateIntent i) (c.withIntent i)
  | updateProfile (p : Profile) : Event c (.updateProfile p) (c.withProfile p)
  | tick : Event c .tick { c with warm := true }
  | setPlanner (p : Option π) : Event c (.setPlanner p) { c with planner := p }
  | setPaused (b : Bool) : Event c (.setPaused b) { c with paused := b }
  | pass (ms : Nat) : Event c (.pass ms) { c with now := c.now + ms }
  | purge : Event c .purge { c with recent := c.recent.purge c.now }

/-- The callers that begin to queue with a move. -/
def Move.newSenders : Move π → List Sender
  | .updateIntent _ => [.starting]
  | .updateProfile _ => [.starting]
  | .tick => [.starting]
  | _ => []

namespace Controller.Event
variable {c c' : Controller π} {m : Move π}

theorem queue (h : c.Event m c') : c'.queue = c.queue := by cases h <;> rfl

theorem closed (h : c.Event m c') : c'.closed = c.closed := by cases h <;> rfl

theorem now_le (h : c.Event m c') : c.now ≤ c'.now := by
  cases h with
  | pass ms => exact Nat.le_add_right _ ms
  | _ => exact Nat.le_refl _

theorem lifetime (h : c.Event m c') : c'.recent.lifetime = c.recent.lifetime := by cases h <;> rfl

/-- Only a purge touches the recent keys, and it leaves those alone that are remembered. -/
theorem get?_recent (h : c.Event m c') {k : String} {putAt : Nat} :
    (c'.recent.entries.get? k = some putAt → c.recent.entries.get? k = some putAt) ∧
      (c.recent.entries.get? k = some putAt → c.now - putAt ≤ c.recent.lifetime →
        c'.recent.entries.get? k = some putAt) := by
  cases h with
  | purge => exact ⟨fun hget => (Recent.get?_purge.mp hget).1, fun hget hfresh => Recent.get?_purge.mpr ⟨hget, hfresh⟩⟩
  | _ => exact ⟨id, fun hget _ => hget⟩

end Controller.Event

/-! ### Recent keys -/

/-- Whether a key that was put at a time is remembered at least as long as that time allows. -/
def Controller.Remembers (c : Controller π) (k : String) (t : Nat) : Prop :=
  c.now ≤ t + c.recent.lifetime → ∃ putAt, t ≤ putAt ∧ c.recent.entries.get? k = some putAt

theorem Controller.Remembers.contains {c : Controller π} {k : String} {t : Nat} (h : c.Remembers k t) (ht : c.now ≤ t + c.recent.lifetime) :
    c.recent.contains c.now k = true := by
  obtain ⟨putAt, hle, hget⟩ := h ht
  exact Recent.contains_iff.mpr ⟨putAt, hget, by omega⟩

/-! ### Callers -/

/-- What a step of a caller can do. -/
inductive Sender.Stepped (c : Controller π) : Sender → Controller π → Option Sender → Prop
  | look (warm : c.warm = true) : Stepped c .starting c (some (.sending c.pending))
  | rest (cold : c.warm = false) : Stepped c .starting c none
  | queue {k : String} {ks : List String} (isOpen : c.closed = false) (room : c.queue.length < c.capacity) :
      Stepped c (.sending (k :: ks)) { c with queue := c.queue ++ [k] } (some (.sending ks))
  | giveUp {k : String} {ks : List String} (closed : c.closed = true) : Stepped c (.sending (k :: ks)) c none
  | done : Stepped c (.sending []) c none

theorem Sender.stepped_of_sendStep? {c c' : Controller π} {t : Sender} {rest : Option Sender}
    (h : System.sendStep? c t = some (c', rest)) : t.Stepped c c' rest := by
  rcases t with _ | (_ | ⟨k, ks⟩) <;> simp only [System.sendStep?] at h
  · obtain ⟨rfl, rfl⟩ := Prod.mk.inj (Option.some.inj h)
    cases hwarm : c.warm with
    | true => exact .look hwarm
    | false => exact .rest hwarm
  · obtain ⟨rfl, rfl⟩ := Prod.mk.inj (Option.some.inj h)
    exact .done
  · split at h
    · rename_i hclosed
      obtain ⟨rfl, rfl⟩ := Prod.mk.inj (Option.some.inj h)
      exact .giveUp hclosed
    · rename_i hopen
      split at h
      · rename_i hroom
        obtain ⟨rfl, rfl⟩ := Prod.mk.inj (Option.some.inj h)
        exact .queue (Bool.eq_false_iff.mpr hopen) hroom
      · cases h

theorem Sender.sendStep?_of_stepped {c c' : Controller π} {t : Sender} {rest : Option Sender} (h : t.Stepped c c' rest) :
    System.sendStep? c t = some (c', rest) := by
  cases h <;> simp [System.sendStep?, *]

theorem Sender.Stepped.adds {c c' : Controller π} {t : Sender} {rest : Option Sender} (h : t.Stepped c c' rest) :
    (∃ keys, c'.queue = c.queue ++ keys) ∧ c'.closed = c.closed ∧ c'.recent = c.recent := by
  cases h with
  | queue => exact ⟨⟨_, rfl⟩, rfl, rfl⟩
  | _ => exact ⟨⟨[], (List.append_nil _).symm⟩, rfl, rfl⟩

/-! ### Rounds -/

/-- The key of a round that waits for the execution of its plan. -/
def Round.inExecution : Round π → List String
  | executing o _ => [o.key]
  | _ => []


theorem Round.mem_inExecution {r : Round π} {k : String} :
    k ∈ r.inExecution ↔ ∃ o plan, r = .executing o plan ∧ o.key = k := by
  cases r <;> simp [inExecution, eq_comm]

/-- What a step of a round can do. -/
inductive Round.Stepped (c : Controller π) : Round π → Option Reply → Controller π → Option (Round π) → Prop
  | find {key : String} {p : π} (planner : c.planner = some p) :
      Stepped c (.starting key) none c (some (.withPlanner key p))
  | unplanned {key : String} (planner : c.planner = none) : Stepped c (.starting key) none c none
  | read {key : String} {p : π} {i : Intent} (intent : c.intents.get? key = some i) :
      Stepped c (.withPlanner key p) none c (some (.withIntent key p i))
  | gone {key : String} {p : π} (intent : c.intents.get? key = none) : Stepped c (.withPlanner key p) none c none
  | profile {key : String} {p : π} {i : Intent} :
      Stepped c (.withIntent key p i) none c (some (.observing key p i c.profiles))
  | observe {key : String} {p : π} {i : Intent} {ps : Profiles} {current : State} :
      Stepped c (.observing key p i ps) (some (.observed (.ok current))) c
        (some (.planning ⟨key, p, ps, current, { intent := i }⟩))
  | unobserved {key : String} {p : π} {i : Intent} {ps : Profiles} {e : SourceError} :
      Stepped c (.observing key p i ps) (some (.observed (.error e))) c none
  | plan {o : Observation π} {plan : List Action} : Stepped c (.planning o) (some (.plan plan)) c (some (.planned o plan))
  | execute {o : Observation π} {plan : List Action} (some_action : plan ≠ []) (running : c.paused = false) :
      Stepped c (.planned o plan) none c (some (.executing o plan))
  | skip {o : Observation π} {plan : List Action} (idle : plan = [] ∨ c.paused = true) :
      Stepped c (.planned o plan) none c (some (.reviewing o plan))
  | note {o : Observation π} {plan : List Action} :
      Stepped c (.executing o plan) (some .done) { c with recent := c.recent.put c.now o.key } (some (.reviewing o plan))
  | review {o : Observation π} {plan : List Action} :
      Stepped c (.reviewing o plan) (some .done) c (some (.tracing o plan))
  | trace {o : Observation π} {plan : List Action} : Stepped c (.tracing o plan) (some .done) c none

theorem Round.stepped_of_step? {c c' : Controller π} {r : Round π} {reply : Option Reply} {rest : Option (Round π)}
    (h : r.step? c reply = some (c', rest)) : r.Stepped c reply c' rest := by
  unfold Round.step? at h
  split at h
  case h_11 => cases h
  all_goals obtain ⟨rfl, rfl⟩ := Prod.mk.inj (Option.some.inj h)
  · cases hplanner : c.planner with
    | none => exact .unplanned hplanner
    | some p => exact .find hplanner
  · rename_i key _
    cases hintent : c.intents.get? key with
    | none => exact .gone hintent
    | some i => exact .read hintent
  · exact .profile
  · exact .observe
  · exact .unobserved
  · exact .plan
  · rename_i o plan
    split
    · rename_i hidle
      rw [Bool.or_eq_true, List.isEmpty_iff] at hidle
      exact .skip hidle
    · rename_i hbusy
      rw [Bool.or_eq_true, List.isEmpty_iff, not_or] at hbusy
      exact .execute hbusy.1 (Bool.eq_false_iff.mpr hbusy.2)
  · exact .note
  · exact .review
  · exact .trace

theorem Round.step?_of_stepped {c c' : Controller π} {r : Round π} {reply : Option Reply} {rest : Option (Round π)}
    (h : r.Stepped c reply c' rest) : r.step? c reply = some (c', rest) := by
  cases h with
  | @skip o plan idle =>
    have hidle : (plan.isEmpty || c.paused) = true := by
      rw [Bool.or_eq_true, List.isEmpty_iff]
      exact idle
    rw [step?, if_pos hidle]
  | _ => simp [step?, *]

theorem Round.Stepped.leaves {c c' : Controller π} {r : Round π} {reply : Option Reply} {rest : Option (Round π)}
    (h : r.Stepped c reply c' rest) : c'.queue = c.queue ∧ c'.closed = c.closed := by
  cases h <;> exact ⟨rfl, rfl⟩

/-! ### The system -/

namespace System

theorem put_append {α : Type} (before after : List α) (x : α) (rest : Option α) :
    put (before ++ x :: after) before.length rest = before ++ rest.toList ++ after := by
  cases rest with
  | none =>
    rw [put, Places.eraseIdx_split, Option.toList_none, List.append_nil]
  | some y =>
    rw [put, Places.set_split, Option.toList_some, List.append_assoc]
    rfl

/-- What a move can do. -/
inductive Stepped (s : System π) : Move π → System π → Prop
  | start {workers : Nat} (unmanned : s.isUnmanned = true) (isOpen : s.controller.closed = false) :
      Stepped s (.start workers) (s.withWorkers workers)
  | leave {idle : Nat} (workers : s.idle = idle + 1) : Stepped s .leave (s.withWorkers idle)
  | event {m : Move π} {c : Controller π} (h : s.controller.Event m c) :
      Stepped s m { s with controller := c, senders := s.senders ++ m.newSenders }
  | send {before after : List Sender} {t : Sender} {c : Controller π} {rest : Option Sender}
      (senders : s.senders = before ++ t :: after) (h : t.Stepped s.controller c rest) :
      Stepped s (.send before.length) { s with controller := c, senders := before ++ rest.toList ++ after }
  | take {k : String} {ks : List String} {idle : Nat} (workers : s.idle = idle + 1)
      (queue : s.controller.queue = k :: ks) :
      Stepped s .take { s with
        controller := { s.controller with queue := ks }
        idle := idle
        rounds := s.rounds ++ [.starting k] }
  | goOn {before after : List (Round π)} {r : Round π} {reply : Option Reply} {c : Controller π} {rest : Option (Round π)}
      (rounds : s.rounds = before ++ r :: after) (h : r.Stepped s.controller reply c rest) :
      Stepped s (.goOn before.length reply) { s with
        controller := c
        rounds := before ++ rest.toList ++ after
        idle := if rest.isNone then s.idle + 1 else s.idle }
  | stall {before after : List (Round π)} {r : Round π} (rounds : s.rounds = before ++ r :: after)
      (waits : r.request?.isSome = true) :
      Stepped s (.stall before.length) { s with rounds := before ++ after, stalled := s.stalled ++ [r] }

variable {s s' : System π} {m : Move π}

theorem stepped_of_step? (h : s.step? m = some s') : Stepped s m s' := by
  -- Events that bring no caller leave the callers as they are.
  have hquiet : ∀ {c : Controller π}, s.controller.Event m c → m.newSenders = [] →
      Stepped s m { s with controller := c } := by
    intro c hevent hnew
    have hstepped := Stepped.event hevent
    rwa [hnew, List.append_nil] at hstepped
  cases m with
  | start workers =>
    obtain ⟨hfree, hs⟩ := Option.ite_none_right_eq_some.mp h
    obtain ⟨hunmanned, hopen⟩ := (Bool.and_eq_true _ _).mp hfree
    cases hs
    exact .start hunmanned ((Bool.not_eq_true' _).mp hopen)
  | updateIntent i =>
    cases h
    exact .event (.updateIntent i)
  | updateProfile p =>
    cases h
    exact .event (.updateProfile p)
  | tick =>
    cases h
    exact .event .tick
  | setPlanner p =>
    cases h
    exact hquiet (.setPlanner p) rfl
  | setPaused b =>
    cases h
    exact hquiet (.setPaused b) rfl
  | pass ms =>
    cases h
    exact hquiet (.pass ms) rfl
  | purge =>
    cases h
    exact hquiet .purge rfl
  | send index =>
    simp only [step?, Option.bind_eq_bind, Option.bind_eq_some_iff, Option.pure_def, Option.some.injEq] at h
    obtain ⟨t, ht, ⟨c, rest⟩, hstep, rfl⟩ := h
    obtain ⟨before, after, hsenders, rfl⟩ := Places.exists_split ht
    rw [hsenders, put_append]
    exact .send hsenders (Sender.stepped_of_sendStep? hstep)
  | take =>
    rw [step?] at h
    split at h
    · rename_i idle k ks hidle hqueue
      cases h
      exact .take hidle hqueue
    · cases h
  | goOn index reply =>
    simp only [step?, Option.bind_eq_bind, Option.bind_eq_some_iff, Option.pure_def, Option.some.injEq] at h
    obtain ⟨r, hr, ⟨c, rest⟩, hstep, rfl⟩ := h
    obtain ⟨before, after, hrounds, rfl⟩ := Places.exists_split hr
    rw [hrounds, put_append]
    exact .goOn hrounds (Round.stepped_of_step? hstep)
  | stall index =>
    simp only [step?, Option.bind_eq_bind, Option.bind_eq_some_iff] at h
    obtain ⟨r, hr, h⟩ := h
    obtain ⟨hwaits, hs⟩ := Option.ite_none_right_eq_some.mp h
    cases hs
    obtain ⟨before, after, hrounds, rfl⟩ := Places.exists_split hr
    have herase : s.rounds.eraseIdx before.length = before ++ after := hrounds ▸ Places.eraseIdx_split before after r
    rw [herase]
    exact .stall hrounds hwaits
  | leave =>
    rw [step?] at h
    split at h
    · cases h
    · rename_i idle hidle
      cases h
      exact .leave hidle

theorem Stepped.now_le (h : Stepped s m s') : s.controller.now ≤ s'.controller.now := by
  cases h with
  | event h => exact h.now_le
  | send senders h => cases h <;> exact Nat.le_refl _
  | goOn rounds h => cases h <;> exact Nat.le_refl _
  | _ => exact Nat.le_refl _

theorem Stepped.lifetime (h : Stepped s m s') :
    s'.controller.recent.lifetime = s.controller.recent.lifetime := by
  cases h with
  | event h => exact h.lifetime
  | send senders h => cases h <;> rfl
  | goOn rounds h => cases h <;> rfl
  | _ => rfl

theorem Stepped.remembers {k : String} {t : Nat} (h : Stepped s m s') (hk : s.controller.Remembers k t) (ht : t ≤ s.controller.now) :
    s'.controller.Remembers k t := by
  cases h with
  | event h =>
    intro hnow
    rw [h.lifetime] at hnow
    have hbefore := Nat.le_trans h.now_le hnow
    obtain ⟨putAt, hle, hget⟩ := hk hbefore
    exact ⟨putAt, hle, h.get?_recent.2 hget (by omega)⟩
  | send senders h => cases h <;> exact hk
  | goOn rounds h =>
    cases h with
    | @note o plan =>
      intro hnow
      by_cases hkey : k = o.key
      · exact ⟨s.controller.now, ht, (Recent.get?_put ..).trans (if_pos hkey)⟩
      · obtain ⟨putAt, hle, hget⟩ := hk hnow
        exact ⟨putAt, hle, (Recent.get?_put ..).trans ((if_neg hkey).trans hget)⟩
    | _ => exact hk
  | _ => exact hk

/-! ### Runs -/

theorem lifetime_run {moves : List (Move π)} (hrun : s.run? moves = some s') :
    s'.controller.recent.lifetime = s.controller.recent.lifetime := by
  induction moves generalizing s with
  | nil =>
    cases hrun
    rfl
  | cons m moves ih =>
    obtain ⟨s₁, hstep, hrest⟩ := Option.bind_eq_some_iff.mp hrun
    exact (ih hrest).trans (stepped_of_step? hstep).lifetime

theorem run?_concat (s : System π) (moves : List (Move π)) (m : Move π) :
    s.run? (moves ++ [m]) = (s.run? moves).bind (·.step? m) := by
  induction moves generalizing s with
  | nil =>
    rw [List.nil_append, run?, run?, Option.bind_some]
    exact Option.bind_fun_some _
  | cons m' moves ih =>
    rw [List.cons_append, run?, run?, Option.bind_assoc]
    exact congrArg _ (funext ih)

end System
end Intendant
