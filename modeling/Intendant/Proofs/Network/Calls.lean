import Intendant.Network.Exchange
import Intendant.Proofs.Plugin.Client
import Intendant.Proofs.Plugin.Remote

/-! # Calls over a network

A client at rest whose plugin is up gets the answer that the hosted actuator gives, and is at rest again. So the
actuators of a registry, local ones and plugins, stand in for the actuators themselves. -/

namespace Intendant.Network
open Wire Plugin

/-! ### Moves -/

/-- The network with one of its clients replaced. -/
def withClient (n : Network) (k : Nat) (c : Client) : Network := { n with clients := n.clients.setIfInBounds k c }

/-- The network with another journal. -/
def withJournal (n : Network) (j : Journal) : Network := { n with journal := j }

section
variable {n : Network} {k : Nat} {c c' : Client} {m : ClientMove}

theorem client_withClient (h : k < n.clients.size) : (n.withClient k c).clients[k]? = some c :=
  Array.getElem?_setIfInBounds_self_of_lt h

theorem withClient_withClient : (n.withClient k c).withClient k c' = n.withClient k c' := by
  simp [withClient]

variable [Json.Reading]

theorem move_eq (h : n.clients[k]? = some c) (hstep : c.step? m = some c') : n.move k m = n.withClient k c' := by
  rw [move, h, Option.bind_some, hstep]
  rfl

theorem move_withClient (h : k < n.clients.size) (hstep : c.step? m = some c') :
    (n.withClient k c).move k m = n.withClient k c' := by
  rw [move_eq (client_withClient h) hstep, withClient_withClient]

theorem move_withClient_none (h : k < n.clients.size) (hstep : c.step? m = none) :
    (n.withClient k c).move k m = n.withClient k c := by
  rw [move, client_withClient h, Option.bind_some, hstep]

end

/-! ### One call -/

/-- What a client makes of the outcome of a call. -/
def answerOf : CallOutcome → Except ActuatorError (List Candidate)
  | .answered _ a => .ok a.candidates
  | .failed e => .error e

section
variable {n : Network} {k i : Nat} {c : Client} {p : PluginProcess} {j : Journal} {text reply : String} {a : NextStateAnswer}

theorem outcome?_withClient (hk : k < n.clients.size) (number : Nat) :
    (n.withClient k c).outcome? k number = (c.outcomes.lookup number).map answerOf := by
  rw [outcome?, client_withClient hk, Option.bind_some]
  rfl

theorem outcome?_during (hk : k < n.clients.size) (h : c.Resting) {phase : CallPhase} {l : Option Link} :
    (n.withClient k (c.during text phase l)).outcome? k c.fresh = none := by
  rw [outcome?_withClient hk, Option.map_eq_none_iff]
  refine List.lookup_eq_none_iff.mpr fun o ho => ?_
  simpa using Nat.ne_of_gt (h.fresh o ho)

theorem outcome?_after (hk : k < n.clients.size) (h : c.Resting) :
    (n.withClient k (c.after a)).outcome? k c.fresh = some (.ok a.candidates) := by
  have hnone : c.outcomes.lookup c.fresh = none := by
    refine List.lookup_eq_none_iff.mpr fun o ho => ?_
    simpa using Nat.ne_of_gt (h.fresh o ho)
  rw [outcome?_withClient hk, Client.after, List.lookup_append, hnone]
  simp [answerOf]

theorem hasStream_of_plugin {endpoint : String} (hresolve : n.resolve? endpoint = some (.plugin i)) :
    n.hasStream endpoint = true := by
  rw [hasStream, hresolve]

variable [Json.Reading]

theorem receive_answered {number fuel : Nat} (h : (n.outcome? k number).isSome = true) : receive k number fuel n = n := by
  cases fuel with
  | zero => rfl
  | succ fuel => rw [receive, if_pos h]

theorem streamReply_of_plugin {endpoint : String} (hresolve : n.resolve? endpoint = some (.plugin i))
    (hp : n.plugins[i]? = some p)
    (hreply : Journal.await (answerText p.hosted.actuator text) n.journal = (some reply, j)) :
    n.streamReply endpoint text = (some ([.text reply], false), n.withJournal j) := by
  simp only [streamReply, hresolve, hp, onJournal, hreply, Option.map_some, withJournal]

theorem opened_withClient (hk : k < n.clients.size) (h : c.Resting) :
    (n.withClient k (c.during text (if c.stream.isNone then .opening else .sending) c.stream)).move k (.opened c.fresh none) =
      n.withClient k (c.during text .sending (some {})) := by
  rcases h.stream with hstream | hstream
  · rw [hstream]
    exact move_withClient hk (Client.step_opened_none h)
  · rw [hstream]
    exact move_withClient_none hk (Client.step_opened_some h)

variable {q : NextStateRequest}

theorem receive_frame (hk : k < n.clients.size) (h : c.Resting) (hread : decode? reply = some a) :
    receive k c.fresh
        ((n.withClient k (c.during (encode q) .receiving (some { frames := [(c.fresh, .text reply)] }))).framesLeft k)
        (n.withClient k (c.during (encode q) .receiving (some { frames := [(c.fresh, .text reply)] }))) =
      n.withClient k (c.after a) := by
  have hfuel : (n.withClient k (c.during (encode q) .receiving (some { frames := [(c.fresh, .text reply)] }))).framesLeft k =
      2 := by
    rw [framesLeft, client_withClient hk]
    rfl
  have hpending : ¬((n.withClient k (c.during (encode q) .receiving
      (some { frames := [(c.fresh, .text reply)] }))).outcome? k c.fresh).isSome = true := by
    rw [outcome?_during hk h]
    exact Bool.false_ne_true
  rw [hfuel, receive, if_neg hpending, move_withClient hk (Client.step_receive h hread)]
  exact receive_answered (by rw [outcome?_after hk h]; rfl)

/-- A call of a client at rest goes as far as to be answered. -/
theorem beginCall_answered (hc : n.clients[k]? = some c) (h : c.Resting)
    (hresolve : n.resolve? c.info.endpoint = some (.plugin i)) (hp : n.plugins[i]? = some p)
    (hreply : Journal.await (answerText p.hosted.actuator (encode q)) n.journal = (some reply, j))
    (hread : decode? reply = some a) :
    n.beginCall k q = (c.fresh, (n.withJournal j).withClient k (c.after a)) := by
  have hk : k < n.clients.size := (Array.getElem?_eq_some_iff.mp hc).1
  have hstream : ∀ d : Client, (n.withClient k d).hasStream c.info.endpoint = true := fun d => hasStream_of_plugin hresolve
  have hserved : ∀ d : Client, (n.withClient k d).streamReply c.info.endpoint (encode q) =
      (some ([.text reply], false), (n.withJournal j).withClient k d) := fun d => streamReply_of_plugin hresolve hp hreply
  rw [beginCall, hc]
  dsimp only
  -- The call begins, gets the slot, opens the stream and sends its request, each by one move.
  rw [move_eq hc (Client.step_call h)]
  simp only [h.free]
  rw [move_withClient hk (Client.step_acquire h), hstream, if_pos rfl, opened_withClient hk h,
    move_withClient hk (Client.step_send h), client_withClient hk, hserved]
  have hmove : ((n.withJournal j).withClient k
      (c.during (encode q) .receiving (some { requests := [(c.fresh, encode q)] }))).move k (.serve [.text reply] false) =
      (n.withJournal j).withClient k (c.during (encode q) .receiving (some { frames := [(c.fresh, .text reply)] })) :=
    move_withClient hk (Client.step_serve reply)
  have hreceive := receive_frame (n := n.withJournal j) (q := q) hk h hread
  rw [← hmove] at hreceive
  exact congrArg (c.fresh, ·) hreceive

theorem endCall_answered (hk : k < n.clients.size) (h : c.Resting) :
    (n.withClient k (c.after a)).endCall k c.fresh = (.ok a.candidates, n.withClient k (c.after a)) := by
  have houtcome := outcome?_after (a := a) hk h
  have hsome : ((n.withClient k (c.after a)).outcome? k c.fresh).isSome = true := by
    rw [houtcome]
    rfl
  rw [endCall, move_withClient_none hk (Client.step_abort h), receive_answered hsome, if_pos hsome, houtcome]
  rfl

/-- A call of a client at rest brings what the plugin answers, and leaves the client at rest. -/
theorem nextState_answered (hc : n.clients[k]? = some c) (h : c.Resting)
    (hresolve : n.resolve? c.info.endpoint = some (.plugin i)) (hp : n.plugins[i]? = some p)
    (hreply : Journal.await (answerText p.hosted.actuator (encode q)) n.journal = (some reply, j))
    (hread : decode? reply = some a) :
    n.nextState k q = (.ok a.candidates, (n.withJournal j).withClient k (c.after a)) := by
  have hk : k < n.clients.size := (Array.getElem?_eq_some_iff.mp hc).1
  rw [nextState, beginCall_answered hc h hresolve hp hreply hread]
  exact endCall_answered (n := n.withJournal j) hk h

end

/-! ### The actuators of a registry -/

/-- A client at rest whose plugin is up and hosts the actuator. -/
def Connected (n : Network) (k : Nat) (a : ScriptedActuator) : Prop :=
  ∃ c i p, n.clients[k]? = some c ∧ c.Resting ∧ n.resolve? c.info.endpoint = some (.plugin i) ∧ n.plugins[i]? = some p ∧
    p.hosted = a

/-- A network that keeps the journal, in which no call waits for an answer, and in which all clients are connected that
    were so in an earlier network. -/
structure Continues (earlier n : Network) (j : Journal) : Prop where
  journal : n.journal = j
  awake : j.stalled = false
  connected : ∀ k a, earlier.Connected k a → n.Connected k a

section
variable [Json.Reading] {n : Network} {k i : Nat} {c : Client} {j : Journal} {p : RegistryProcess} {a : ScriptedActuator}
  {as : List ScriptedActuator} {state goal : State} {ps : Profiles} {P : Asked → Prop}

omit [Json.Reading] in
/-- A client that has just reached a plugin is connected. -/
theorem connected_connect {info : Info} {retries callTimeoutMs : Nat} {m : Network} {p : PluginProcess}
    (h : n.connect info retries callTimeoutMs = (.ok k, m)) (hresolve : m.resolve? info.endpoint = some (.plugin i))
    (hp : m.plugins[i]? = some p) : m.Connected k p.hosted := by
  rw [connect] at h
  split at h
  · cases h
  · cases h
    exact ⟨_, i, p, Array.getElem?_push_size, Client.resting_new info callTimeoutMs, hresolve, hp, rfl⟩

omit [Json.Reading] in
theorem awake_nextState (hj : j.stalled = false) (ha : a.script.isSilent = false) :
    (a.actuator.nextState state goal ps j).2.stalled = false := by
  simp [ScriptedActuator.actuator, hj, ha]

omit [Json.Reading] in
theorem await_eq {α : Type} {activity : Journal → α × Journal} {x : α} {j' : Journal} (h : activity j = (x, j'))
    (hj' : j'.stalled = false) : Journal.await activity j = (some x, j') := by
  obtain ⟨events, serials, stalled⟩ := j'
  obtain rfl : stalled = false := hj'
  rw [Journal.await, h]
  rfl

omit [Json.Reading] in
theorem Connected.answered {k' : Nat} {a' : ScriptedActuator} {ans : NextStateAnswer} (hc : n.clients[k]? = some c)
    (hrest : c.Resting) (h : n.Connected k' a') : ((n.withJournal j).withClient k (c.after ans)).Connected k' a' := by
  obtain ⟨c', i, p, hc', hrest', hresolve, hp, rfl⟩ := h
  have hk : k < n.clients.size := (Array.getElem?_eq_some_iff.mp hc).1
  by_cases hne : k' = k
  · subst hne
    obtain rfl : c = c' := Option.some.inj (hc.symm.trans hc')
    exact ⟨c.after ans, i, p, client_withClient hk, Client.resting_after hrest, hresolve, hp, rfl⟩
  · refine ⟨c', i, p, ?_, hrest', hresolve, hp, rfl⟩
    exact (Array.getElem?_setIfInBounds_ne (Ne.symm hne)).trans hc'

theorem mirrors_client (hplugin : n.Connected k a) (ha : a.script.isSilent = false) :
    Synthesis.Mirrors (Continues n) (Crosses goal ps) goal ps (clientActuator k c) a.actuator := by
  rintro index vertex state m j ⟨rfl, hawake, hconnected⟩ ⟨hrequest, hanswer⟩
  obtain ⟨c', i, p, hc', hrest, hresolve, hp, rfl⟩ := hconnected k a hplugin
  have hawake' : (p.hosted.actuator.nextState state goal ps m.journal).2.stalled = false := awake_nextState hawake ha
  rcases hnext : p.hosted.actuator.nextState state goal ps m.journal with ⟨answer, j⟩
  rw [hnext] at hanswer hawake'
  have hreply := await_eq (answerText_encode _ hrequest hnext) hawake'
  have hcall := nextState_answered hc' hrest hresolve hp hreply (decode?_carried hanswer)
  change candidatesOf (m.nextState k ⟨state, goal, ps⟩).1 = _ ∧ Continues n (m.nextState k ⟨state, goal, ps⟩).2 _
  rw [hcall]
  exact ⟨candidates_ofCandidates _, rfl, hawake', fun k a h => (hconnected k a h).answered hc' hrest⟩

omit [Json.Reading] in
theorem mirrors_local (ha : a.script.isSilent = false) :
    Synthesis.Mirrors (Continues n) P goal ps (a.actuator.within (·.journal) fun n j => { n with journal := j })
      a.actuator := by
  rintro index vertex state m j ⟨rfl, hawake, hconnected⟩ -
  exact ⟨rfl, rfl, awake_nextState hawake ha, hconnected⟩

theorem mirrors_clients {es : List (String × Registered)} (h : List.Forall₂ (fun e a => n.Connected e.2.client a) es as)
    (hvoices : ∀ a ∈ as, a.script.isSilent = false) :
    List.Forall₂ (Synthesis.Mirrors (Continues n) (Crosses goal ps) goal ps)
      (es.filterMap fun e => n.clients[e.2.client]?.map (clientActuator e.2.client)) (as.map (·.actuator)) := by
  induction h with
  | nil => exact .nil
  | @cons e a es as hplugin _ ih =>
    obtain ⟨c, i, p, hc, hrest⟩ := hplugin
    obtain ⟨ha, has⟩ := List.forall_mem_cons.mp hvoices
    simp only [List.filterMap_cons, hc, Option.map_some, List.map_cons]
    exact .cons (mirrors_client ⟨c, i, p, hc, hrest⟩ ha) (ih has)

theorem mirrors_actuators (hp : n.registries[i]? = some p)
    (hplugins : List.Forall₂ (fun e a => n.Connected e.2.client a) p.registry.plugins as)
    (hvoices : ∀ a ∈ p.locals ++ as, a.script.isSilent = false) :
    List.Forall₂ (Synthesis.Mirrors (Continues n) (Crosses goal ps) goal ps) (n.actuators i)
      ((p.locals ++ as).map (·.actuator)) := by
  obtain ⟨hlocals, has⟩ := List.forall_mem_append.mp hvoices
  rw [actuators, hp, List.map_append]
  refine List.rel_append ?_ (mirrors_clients hplugins has)
  rw [List.forall₂_map_left_iff, List.forall₂_map_right_iff, List.forall₂_same]
  exact fun a ha => mirrors_local (hlocals a ha)

/-- The actuators of a registry, local ones and plugins, lead to the graph and the plan that the same actuators lead to
    within one process. -/
theorem plan_actuators (limits : PlannerLimits) (start goal : State) (ps : Profiles) (hp : n.registries[i]? = some p)
    (hplugins : List.Forall₂ (fun e a => n.Connected e.2.client a) p.registry.plugins as)
    (hvoices : ∀ a ∈ p.locals ++ as, a.script.isSilent = false) (hawake : n.journal.stalled = false)
    (h : ∀ q ∈ (Synthesis.build limits ((p.locals ++ as).map (·.actuator)) start goal ps n.journal).1.asked,
      Crosses goal ps q) :
    let s := Synthesis.build limits ((p.locals ++ as).map (·.actuator)) start goal ps n.journal
    let r := Synthesis.build limits (n.actuators i) start goal ps n
    r.1.graph = s.1.graph ∧ r.1.hasGoal = s.1.hasGoal ∧ r.1.overflowed = s.1.overflowed ∧ r.2.journal = s.2 ∧
      (Planner.createPlan limits (n.actuators i) start goal ps n).1 =
        (Planner.createPlan limits ((p.locals ++ as).map (·.actuator)) start goal ps n.journal).1 := by
  intro s r
  have hmirror : List.Forall₂ (Synthesis.Mirrors (Continues n) (Crosses goal ps) goal ps) (n.actuators i)
      ((p.locals ++ as).map (·.actuator)) := mirrors_actuators hp hplugins hvoices
  have hstart : Continues n n n.journal := ⟨rfl, hawake, fun _ _ hplugin => hplugin⟩
  obtain ⟨hs, hr⟩ : r.1.hushed = s.1.hushed ∧ Continues n r.2 s.2 := Synthesis.build_mirrored hmirror hstart h
  exact ⟨Synthesis.graph_eq_of_hushed hs, Synthesis.hasGoal_eq_of_hushed hs, Synthesis.overflowed_eq_of_hushed hs,
    hr.journal, Planner.createPlan_mirrored hmirror hstart h⟩

end
end Intendant.Network
