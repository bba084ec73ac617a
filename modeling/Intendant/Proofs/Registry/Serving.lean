import Mathlib.Data.List.Basic
import Intendant.Proofs.Places
import Intendant.Registry.Serving

/-! # Runs of a service

Calls to start look whether the registry serves already, and take up the service once they have an address. What a service
can have after any moves of any number of calls and stops is `run_serves`: it starts one server and one loop for every
address that a call gets, and no call that was issued after a stop is answered with an address. There is one server at most
where no call looks while another one is between its look and its service (`Apart`), and two of them are possible as long as
two calls are, or may come, there (`prospect`). -/

namespace Intendant

namespace Opening

/-- The call has looked and may still take up the service. -/
def isPending : Opening → Bool
  | .binding | .bound _ => true
  | _ => false

/-- The call has an address and is about to serve on it. -/
def isBound : Opening → Bool
  | .bound _ => true
  | _ => false

end Opening

/-- The network gives a call its address. -/
def ServingMove.binds : ServingMove → Bool
  | .goOn _ (some (.bound (.ok _))) => true
  | _ => false

namespace Serving

/-- A call goes on as another one. -/
def proceed (s : Serving) (index : Nat) (c : Opening) : Serving := { s with openings := s.openings.set index c }

/-- An answered call is gone. -/
def finish (s : Serving) (index : Nat) : Serving := { s with openings := s.openings.eraseIdx index }

/-- A server and a loop are started for a port, which becomes the address if there is none. -/
def serve (s : Serving) (port : Nat) : Serving :=
  { s with address := some (s.address.getD port), servers := s.servers ++ [port], loops := s.loops + 1 }

/-- What a move can do. -/
inductive Stepped (s : Serving) : ServingMove → Serving → Prop
  | start : Stepped s .start { s with openings := s.openings ++ [.starting] }
  | stop : Stepped s .stop { s with stopped := true }
  | endAll (stopped : s.stopped = true) : Stepped s .endAll { s with ending := true }
  | refuse {index : Nat} (call : s.openings[index]? = some .starting) (stopped : s.stopped = true) :
      Stepped s (.goOn index none) ((s.answer (.error .stopped)).finish index)
  | know {index port : Nat} (call : s.openings[index]? = some .starting) (running : s.stopped = false)
      (address : s.address = some port) : Stepped s (.goOn index none) ((s.answer (.ok port)).finish index)
  | look {index : Nat} (call : s.openings[index]? = some .starting) (running : s.stopped = false)
      (address : s.address = none) : Stepped s (.goOn index none) (s.proceed index .binding)
  | fail {index : Nat} (e : PluginError) (call : s.openings[index]? = some .binding) :
      Stepped s (.goOn index (some (.bound (.error e)))) ((s.answer (.error e)).finish index)
  | bind {index : Nat} (port : Nat) (call : s.openings[index]? = some .binding) :
      Stepped s (.goOn index (some (.bound (.ok port)))) (s.proceed index (.bound port))
  | serve {index port : Nat} (call : s.openings[index]? = some (.bound port)) :
      Stepped s (.goOn index none) ((s.serve port).proceed index (.polling port))
  | ready {index port : Nat} (call : s.openings[index]? = some (.polling port)) :
      Stepped s (.goOn index (some (.ready none))) ((s.answer (.ok port)).finish index)
  | abandon {index port : Nat} (e : PluginError) (call : s.openings[index]? = some (.polling port)) :
      Stepped s (.goOn index (some (.ready (some e)))) ((s.answer (.error e)).finish index)

variable {s s' t : Serving} {m : ServingMove} {moves : List ServingMove}

theorem stepped_iff : s.step? m = some s' ↔ Stepped s m s' := by
  constructor
  · intro h
    cases m with
    | start =>
      cases h
      exact .start
    | stop =>
      cases h
      exact .stop
    | endAll =>
      rw [step?] at h
      split at h
      · rename_i hstopped
        cases h
        exact .endAll hstopped
      · cases h
    | goOn index signal =>
      simp only [step?, Option.bind_eq_bind, Option.bind_eq_some_iff, Option.pure_def, Option.some.injEq] at h
      obtain ⟨c, hc, ⟨s₁, rest⟩, hstep, rfl⟩ := h
      -- A call takes no signal but its own.
      rcases c with _ | _ | port | port <;> rcases signal with _ | (e | port') | _ | e <;>
        simp only [openingStep?, reduceCtorEq] at hstep
      · split at hstep
        · rename_i hstopped
          cases hstep
          exact .refuse hc hstopped
        · rename_i hrunning
          split at hstep
          · rename_i port hport
            cases hstep
            exact .know hc (Bool.eq_false_iff.mpr hrunning) hport
          · rename_i hnone
            cases hstep
            exact .look hc (Bool.eq_false_iff.mpr hrunning) hnone
      · cases hstep
        exact .fail e hc
      · cases hstep
        exact .bind port' hc
      · cases hstep
        exact .serve hc
      · cases hstep
        exact .ready hc
      · cases hstep
        exact .abandon e hc
  · intro h
    cases h <;> simp [step?, openingStep?, proceed, finish, serve, *]

/-- The service after some moves, if all of them are possible. -/
def run? (s : Serving) : List ServingMove → Option Serving
  | [] => some s
  | m :: moves => (s.step? m).bind (run? · moves)

theorem run?_cons (h : s.run? (m :: moves) = some t) : ∃ s', Stepped s m s' ∧ s'.run? moves = some t := by
  obtain ⟨s', hstep, hrun⟩ := Option.bind_eq_some_iff.mp h
  exact ⟨s', stepped_iff.mp hstep, hrun⟩

/-- What every step preserves, a run preserves. -/
theorem run?_induction {P : Serving → Prop} (hstep : ∀ s m s', P s → Stepped s m s' → P s')
    (h : s.run? moves = some t) (hs : P s) : P t := by
  induction moves generalizing s with
  | nil =>
    cases h
    exact hs
  | cons m moves ih =>
    obtain ⟨s', hm, hrun⟩ := run?_cons h
    exact ih hrun (hstep s m s' hs hm)

theorem run?_append {before after : List ServingMove} (h : s.run? before = some s') :
    s.run? (before ++ after) = s'.run? after := by
  induction before generalizing s with
  | nil =>
    cases h
    rfl
  | cons m before ih =>
    obtain ⟨s₁, hstep, hrun⟩ := Option.bind_eq_some_iff.mp h
    rw [List.cons_append, run?, hstep]
    exact ih hrun

/-! ### What a service keeps -/

/-- There is a loop for every server, the first server has the address, and calls and answers know ports of servers. -/
structure Kept (s : Serving) : Prop where
  loops : s.loops = s.servers.length
  address : s.address = s.servers.head?
  polling : ∀ port, .polling port ∈ s.openings → port ∈ s.servers
  answered : ∀ port, .ok port ∈ s.answers → port ∈ s.servers

theorem Kept.initial : Kept {} where
  loops := rfl
  address := rfl
  polling := nofun
  answered := nofun

theorem Kept.answer (h : s.Kept) {a : Except PluginError Nat} (ha : ∀ port, a = .ok port → port ∈ s.servers) :
    (s.answer a).Kept where
  loops := h.loops
  address := h.address
  polling := h.polling
  answered port hport := by
    rcases List.mem_append.mp hport with hport | hport
    · exact h.answered port hport
    · exact ha port (List.mem_singleton.mp hport).symm

theorem Kept.finish (h : s.Kept) (index : Nat) : (s.finish index).Kept where
  loops := h.loops
  address := h.address
  polling port hport := h.polling port (List.mem_of_mem_eraseIdx hport)
  answered := h.answered

theorem Kept.proceed (h : s.Kept) (index : Nat) {c : Opening} (hc : ∀ port, c = .polling port → port ∈ s.servers) :
    (s.proceed index c).Kept where
  loops := h.loops
  address := h.address
  polling port hport := by
    rcases List.mem_or_eq_of_mem_set hport with hport | heq
    · exact h.polling port hport
    · exact hc port heq.symm
  answered := h.answered

theorem Kept.serve (h : s.Kept) (port : Nat) : (s.serve port).Kept where
  loops := by
    rw [Serving.serve, List.length_append, h.loops]
    rfl
  address := by
    rw [Serving.serve, h.address]
    cases s.servers <;> rfl
  polling port' hport := List.mem_append_left _ (h.polling port' hport)
  answered port' hport := List.mem_append_left _ (h.answered port' hport)

theorem Kept.step (h : s.Kept) (hm : Stepped s m s') : s'.Kept := by
  cases hm with
  | start =>
    refine ⟨h.loops, h.address, fun port hport => ?_, h.answered⟩
    rcases List.mem_append.mp hport with hport | hport
    · exact h.polling port hport
    · cases List.mem_singleton.mp hport
  | stop | endAll => exact ⟨h.loops, h.address, h.polling, h.answered⟩
  | refuse | fail | abandon => exact (h.answer (by nofun)).finish _
  | @know index port call running address =>
    refine (h.answer fun port' heq => ?_).finish index
    cases heq
    exact List.mem_of_mem_head? (h.address ▸ address)
  | look | bind => exact h.proceed _ (by nofun)
  | @serve index port call =>
    refine (h.serve port).proceed index fun port' heq => ?_
    cases heq
    exact List.mem_append_right _ (List.mem_singleton_self port)
  | @ready index port call =>
    refine (h.answer fun port' heq => ?_).finish index
    cases heq
    exact h.polling port (List.mem_of_getElem? call)

/-! ### Counting calls -/

theorem countP_finish {index : Nat} {c : Opening} (hc : s.openings[index]? = some c) (p : Opening → Bool) :
    (s.finish index).openings.countP p + (p c).toNat = s.openings.countP p := by
  obtain ⟨before, after, heq, rfl⟩ := Places.exists_split hc
  rw [finish, heq, Places.eraseIdx_split, List.countP_append, List.countP_append, List.countP_cons]
  cases p c <;> simp +arith

theorem countP_proceed {index : Nat} {c : Opening} (hc : s.openings[index]? = some c) (d : Opening) (p : Opening → Bool) :
    (s.proceed index d).openings.countP p + (p c).toNat = s.openings.countP p + (p d).toNat := by
  obtain ⟨before, after, heq, rfl⟩ := Places.exists_split hc
  rw [proceed, heq, Places.set_split, List.countP_append, List.countP_append, List.countP_cons, List.countP_cons]
  cases p c <;> cases p d <;> simp +arith

theorem length_servers_serve (s : Serving) (port index : Nat) (c : Opening) :
    ((s.serve port).proceed index c).servers.length = s.servers.length + 1 := List.length_append

/-- The calls between their look and their service. -/
def pending (s : Serving) : Nat := s.openings.countP Opening.isPending

/-- The servers that were started and those that calls may still start. -/
def prospect (s : Serving) : Nat := s.servers.length + s.pending

/-- A call finds that it may take up the service. -/
def Looks (s : Serving) : ServingMove → Prop
  | .goOn index none => s.openings[index]? = some .starting ∧ s.stopped = false ∧ s.address = none
  | _ => False

theorem Looks.unsettled (h : s.Looks m) : s.stopped = false ∧ s.address = none := by
  unfold Looks at h
  split at h
  · exact h.2
  · exact h.elim

/-- Only a look raises the number of servers to come. -/
theorem prospect_step (hm : Stepped s m s') :
    s'.prospect ≤ s.prospect ∨ s.Looks m ∧ s'.prospect = s.prospect + 1 := by
  unfold prospect pending
  cases hm with
  | start | stop | endAll => simp [Opening.isPending]
  | refuse call | know call | ready call | fail _ call | abandon _ call =>
    left
    have hcount := countP_finish call Opening.isPending
    exact Nat.add_le_add_left (hcount ▸ Nat.le_add_right ..) _
  | look call running address =>
    right
    have hcount := countP_proceed call .binding Opening.isPending
    exact ⟨⟨call, running, address⟩, congrArg (_ + ·) hcount⟩
  | bind port call =>
    left
    have hcount := countP_proceed call (.bound port) Opening.isPending
    exact Nat.add_le_add_left (Nat.le_of_eq (Nat.add_right_cancel hcount)) _
  | @serve index port call =>
    left
    have hcount := countP_proceed (s := s.serve port) call (.polling port) Opening.isPending
    rw [length_servers_serve, Nat.add_assoc, Nat.add_comm 1]
    exact Nat.add_le_add_left (Nat.le_of_eq hcount) _

/-- Every server was given its port by the network, and so were the calls that are about to serve. -/
theorem binds_step (hm : Stepped s m s') :
    s'.servers.length + s'.openings.countP Opening.isBound =
      s.servers.length + s.openings.countP Opening.isBound + m.binds.toNat := by
  cases hm with
  | start | stop | endAll => simp [Opening.isBound, ServingMove.binds]
  | refuse call | know call | ready call | fail _ call | abandon _ call =>
    exact congrArg (_ + ·) (countP_finish call Opening.isBound)
  | look call => exact congrArg (_ + ·) (countP_proceed call .binding Opening.isBound)
  | bind port call => exact congrArg (_ + ·) (countP_proceed call (.bound port) Opening.isBound)
  | @serve index port call =>
    have hcount := countP_proceed (s := s.serve port) call (.polling port) Opening.isBound
    rw [length_servers_serve, Nat.add_assoc, Nat.add_comm 1]
    exact congrArg (_ + ·) hcount

theorem binds_run (h : s.run? moves = some t) :
    t.servers.length + t.openings.countP Opening.isBound =
      s.servers.length + s.openings.countP Opening.isBound + moves.countP ServingMove.binds := by
  induction moves generalizing s with
  | nil =>
    cases h
    rfl
  | cons m moves ih =>
    obtain ⟨s', hm, hrun⟩ := run?_cons h
    rw [ih hrun, binds_step hm, List.countP_cons, Nat.add_assoc, Nat.add_comm (List.countP _ moves)]
    cases m.binds <;> rfl

/-! ### Servers to come -/

/-- Calls that look are told to go away, or are given the address. -/
def Settled (s : Serving) : Prop := s.stopped = true ∨ s.address ≠ none

theorem Settled.step (h : s.Settled) (hm : Stepped s m s') : s'.Settled ∧ s'.prospect ≤ s.prospect := by
  have hsettled : s'.Settled := by
    cases hm with
    | stop => exact .inl rfl
    | serve => exact .inr (Option.some_ne_none _)
    | _ => exact h
  refine ⟨hsettled, (prospect_step hm).resolve_right ?_⟩
  rintro ⟨hlooks, -⟩
  obtain ⟨hrunning, haddress⟩ := hlooks.unsettled
  rcases h with hstopped | hsome
  · rw [hrunning] at hstopped
    cases hstopped
  · exact hsome haddress

/-- A call with an address may serve next. -/
theorem exists_run_bound {index port : Nat} (hc : s.openings[index]? = some (.bound port)) :
    ∃ more t, s.run? more = some t ∧ t.prospect = s.prospect ∧ t.pending + 1 = s.pending := by
  have hcount := countP_proceed (s := s.serve port) hc (.polling port) Opening.isPending
  refine ⟨[.goOn index none], (s.serve port).proceed index (.polling port), ?_, ?_, hcount⟩
  · rw [run?, stepped_iff.mpr (.serve hc)]
    rfl
  · rw [prospect, length_servers_serve, Nat.add_assoc, Nat.add_comm 1]
    exact congrArg (_ + ·) hcount

/-- A call that has looked may serve next, with any address. -/
theorem exists_run_pending (h : 0 < s.pending) :
    ∃ more t, s.run? more = some t ∧ t.prospect = s.prospect ∧ t.pending + 1 = s.pending := by
  obtain ⟨c, hc, hpending⟩ := List.countP_pos_iff.mp h
  obtain ⟨index, hindex⟩ := List.mem_iff_getElem?.mp hc
  cases c with
  | starting | polling => cases hpending
  | bound port => exact exists_run_bound hindex
  | binding =>
    have hcount := countP_proceed hindex (.bound 0) Opening.isPending
    have hsame : (s.proceed index (.bound 0)).pending = s.pending := Nat.add_right_cancel hcount
    have hnext : (s.proceed index (.bound 0)).openings[index]? = some (.bound 0) := by
      rw [proceed, List.getElem?_set_self (List.getElem?_eq_some_iff.mp hindex).1]
    obtain ⟨more, t, hrun, hprospect, hless⟩ := exists_run_bound hnext
    refine ⟨.goOn index (some (.bound (.ok 0))) :: more, t, ?_, ?_, hless.trans hsame⟩
    · rw [run?, stepped_iff.mpr (.bind 0 hindex)]
      exact hrun
    · rw [hprospect, prospect, hsame]
      rfl

/-- All calls that have looked may still serve. -/
theorem exists_run_serving (s : Serving) : ∃ more t, s.run? more = some t ∧ t.servers.length = s.prospect := by
  induction hn : s.pending generalizing s with
  | zero => exact ⟨[], s, rfl, by rw [prospect, hn, Nat.add_zero]⟩
  | succ n ih =>
    obtain ⟨first, s', hfirst, hprospect, hpending⟩ := exists_run_pending (s := s) (by rw [hn]; exact Nat.succ_pos n)
    obtain ⟨more, t, hmore, hlength⟩ := ih s' (Nat.succ.inj (hpending.trans hn))
    exact ⟨first ++ more, t, (run?_append hfirst).trans hmore, hlength.trans hprospect⟩

/-- Another call may look where none has served. -/
theorem exists_run_looking (hrunning : s.stopped = false) (haddress : s.address = none) :
    ∃ more t, s.run? more = some t ∧ t.prospect = s.prospect + 1 ∧ t.stopped = false ∧ t.address = none := by
  have hcall : ({ s with openings := s.openings ++ [.starting] } : Serving).openings[s.openings.length]? =
      some .starting := List.getElem?_concat_length
  have hstarted : List.countP Opening.isPending (s.openings ++ [.starting]) = s.pending := by
    simp [pending, Opening.isPending]
  have hcount := countP_proceed hcall .binding Opening.isPending
  refine ⟨[.start, .goOn s.openings.length none],
    ({ s with openings := s.openings ++ [.starting] } : Serving).proceed s.openings.length .binding, ?_, ?_, hrunning,
    haddress⟩
  · rw [run?, stepped_iff.mpr .start, Option.bind_some, run?, stepped_iff.mpr (.look hcall hrunning haddress)]
    rfl
  · exact congrArg (s.servers.length + ·) (hcount.trans (congrArg (· + 1) hstarted))

/-- Two servers can still come about if calls may still look, or if there are enough of those that have. -/
theorem two_servers_iff : (∃ more t, s.run? more = some t ∧ 2 ≤ t.servers.length) ↔
    s.stopped = false ∧ s.address = none ∨ 2 ≤ s.prospect := by
  constructor
  · rintro ⟨more, t, hrun, htwo⟩
    refine or_iff_not_imp_left.mpr fun hnot => ?_
    -- No call looks any more, so no step raises the number of servers to come.
    have hsettled : s.Settled := by
      rwa [not_and_or, Bool.not_eq_false] at hnot
    have hstep : ∀ s₁ m s₂, s₁.Settled ∧ s₁.prospect ≤ s.prospect → Stepped s₁ m s₂ →
        s₂.Settled ∧ s₂.prospect ≤ s.prospect := by
      intro s₁ m s₂ ⟨hs₁, hle⟩ hm
      obtain ⟨hs₂, hless⟩ := hs₁.step hm
      exact ⟨hs₂, Nat.le_trans hless hle⟩
    have hle := (run?_induction hstep hrun ⟨hsettled, Nat.le_refl _⟩).2
    exact Nat.le_trans htwo (Nat.le_trans (Nat.le_add_right ..) hle)
  · rintro (⟨hrunning, haddress⟩ | htwo)
    · obtain ⟨first, s₁, hfirst, hone, hrunning₁, haddress₁⟩ := exists_run_looking hrunning haddress
      obtain ⟨second, s₂, hsecond, htwo, -⟩ := exists_run_looking hrunning₁ haddress₁
      obtain ⟨more, t, hmore, hlength⟩ := exists_run_serving s₂
      refine ⟨first ++ (second ++ more), t, ?_, ?_⟩
      · rw [run?_append hfirst, run?_append hsecond, hmore]
      · rw [hlength, htwo, hone]
        exact Nat.le_add_left ..
    · obtain ⟨more, t, hmore, hlength⟩ := exists_run_serving s
      exact ⟨more, t, hmore, hlength ▸ htwo⟩

/-! ### Calls one after the other -/

/-- A call finds that it may take up the service although another one is about to. -/
def Overlaps (s : Serving) (m : ServingMove) : Prop := s.Looks m ∧ 0 < s.pending

/-- No call looks while another one is between its look and its service. -/
def Apart : Serving → List ServingMove → Prop
  | _, [] => True
  | s, m :: moves => ¬s.Overlaps m ∧ ∀ s', s.step? m = some s' → Apart s' moves

theorem prospect_le_one (hs : s.Kept) (hle : s.prospect ≤ 1) (hapart : s.Apart moves) (h : s.run? moves = some t) :
    t.prospect ≤ 1 := by
  induction moves generalizing s with
  | nil =>
    cases h
    exact hle
  | cons m moves ih =>
    obtain ⟨s', hm, hrun⟩ := run?_cons h
    refine ih (hs.step hm) ?_ (hapart.2 s' (stepped_iff.mpr hm)) hrun
    rcases prospect_step hm with hless | ⟨hlooks, heq⟩
    · exact Nat.le_trans hless hle
    · -- A look finds no address, so there is no server yet, and no other call is about to start one.
      have hpending : s.pending = 0 := Nat.eq_zero_of_not_pos fun hpos => hapart.1 ⟨hlooks, hpos⟩
      have hservers : s.servers = [] := List.head?_eq_none_iff.mp (hs.address ▸ hlooks.unsettled.2)
      rw [heq, prospect, hpending, hservers]
      exact Nat.le_refl 1

end Serving

/-! ### Late calls -/

/-- A service and, for every call under way and for every answer, whether that call was issued after a stop had begun. -/
structure Attended where
  serving : Serving := {}
  late : List Bool := []
  answered : List Bool := []

namespace Attended
open Serving (Stepped)

/-- The attended service after a move, where the move is possible. -/
def step? (a : Attended) (m : ServingMove) : Option Attended := do
  let s ← a.serving.step? m
  match m with
  | .start => return { a with serving := s, late := a.late ++ [a.serving.stopped] }
  | .goOn index _ =>
    -- A call that gives an answer is over.
    if a.serving.answers.length < s.answers.length then
      return { serving := s, late := a.late.eraseIdx index, answered := a.answered ++ a.late[index]?.toList }
    else return { a with serving := s }
  | _ => return { a with serving := s }

/-- The attended service after moves, each of which is possible when it is made. -/
def run? (a : Attended) : List ServingMove → Option Attended
  | [] => some a
  | m :: moves => (a.step? m).bind (run? · moves)

/-- Late calls have not looked yet, and were stopped if they are answered. -/
structure Refusing (a : Attended) : Prop where
  late_length : a.late.length = a.serving.openings.length
  answered_length : a.answered.length = a.serving.answers.length
  waiting : ∀ i : Nat, a.late[i]? = some true → a.serving.stopped = true ∧ a.serving.openings[i]? = some .starting
  refused : ∀ i : Nat, a.answered[i]? = some true → a.serving.answers[i]? = some (.error .stopped)

variable {a a' : Attended} {m : ServingMove} {moves : List ServingMove} {s : Serving}

theorem exists_step (h : a.serving.step? m = some s) : ∃ a', a.step? m = some a' ∧ a'.serving = s := by
  rw [step?, h]
  cases m with
  | goOn index signal =>
    simp only [Option.bind_eq_bind, Option.bind_some]
    split
    · exact ⟨_, rfl, rfl⟩
    · exact ⟨_, rfl, rfl⟩
  | _ => exact ⟨_, rfl, rfl⟩

theorem exists_run (h : a.serving.run? moves = some s) : ∃ a', a.run? moves = some a' ∧ a'.serving = s := by
  induction moves generalizing a with
  | nil =>
    cases h
    exact ⟨a, rfl, rfl⟩
  | cons m moves ih =>
    obtain ⟨s', hstep, hrun⟩ := Option.bind_eq_some_iff.mp h
    obtain ⟨a₁, ha₁, rfl⟩ := exists_step hstep
    obtain ⟨a', ha', heq⟩ := ih hrun
    exact ⟨a', by rw [run?, ha₁]; exact ha', heq⟩

theorem getElem?_concat_eq_some {α : Type} {xs : List α} {x y : α} {i : Nat} :
    (xs ++ [x])[i]? = some y ↔ xs[i]? = some y ∨ i = xs.length ∧ x = y := by
  grind

theorem Refusing.start (h : a.Refusing) : Refusing { a with
    serving := { a.serving with openings := a.serving.openings ++ [.starting] }, late := a.late ++ [a.serving.stopped] } where
  late_length := by
    rw [List.length_append, List.length_append, h.late_length]
    rfl
  answered_length := h.answered_length
  waiting i hi := by
    rcases getElem?_concat_eq_some.mp hi with hi | ⟨rfl, hstopped⟩
    · obtain ⟨hstopped, hcall⟩ := h.waiting i hi
      exact ⟨hstopped, getElem?_concat_eq_some.mpr (.inl hcall)⟩
    · exact ⟨hstopped, getElem?_concat_eq_some.mpr (.inr ⟨h.late_length, rfl⟩)⟩
  refused := h.refused

/-- A call that looked is not late. -/
theorem Refusing.proceed (h : a.Refusing) {index : Nat} {c d : Opening} (hc : a.serving.openings[index]? = some c)
    (hlooked : c = .starting → a.serving.stopped = false) (hstopped : s.stopped = a.serving.stopped)
    (hanswers : s.answers = a.serving.answers) (hopenings : s.openings = a.serving.openings.set index d) :
    Refusing { a with serving := s } where
  late_length := by rw [hopenings, List.length_set, h.late_length]
  answered_length := by rw [hanswers, h.answered_length]
  waiting i hi := by
    obtain ⟨hlate, hcall⟩ := h.waiting i hi
    have hne : index ≠ i := by
      rintro rfl
      rw [hc] at hcall
      rw [hlooked (Option.some.inj hcall)] at hlate
      cases hlate
    rw [hopenings, List.getElem?_set_ne hne, hstopped]
    exact ⟨hlate, hcall⟩
  refused i hi := by
    rw [hanswers]
    exact h.refused i hi

/-- A call that is answered is told to go away if it is late. -/
theorem Refusing.finish (h : a.Refusing) {index : Nat} {c : Opening} (hc : a.serving.openings[index]? = some c)
    {r : Except PluginError Nat} (hr : c = .starting → a.serving.stopped = true → r = .error .stopped) :
    Refusing ⟨(a.serving.answer r).finish index, a.late.eraseIdx index, a.answered ++ a.late[index]?.toList⟩ := by
  have hindex : index < a.serving.openings.length := (List.getElem?_eq_some_iff.mp hc).1
  obtain ⟨b, hb⟩ : ∃ b, a.late[index]? = some b := ⟨_, List.getElem?_eq_getElem (h.late_length ▸ hindex)⟩
  rw [hb]
  refine ⟨?_, ?_, fun i hi => ?_, fun i hi => ?_⟩
  · show (a.late.eraseIdx index).length = (a.serving.openings.eraseIdx index).length
    rw [List.length_eraseIdx, List.length_eraseIdx, h.late_length]
  · show (a.answered ++ [b]).length = (a.serving.answers ++ [r]).length
    rw [List.length_append, List.length_append, h.answered_length]
    rfl
  · show a.serving.stopped = true ∧ (a.serving.openings.eraseIdx index)[i]? = some .starting
    rw [List.getElem?_eraseIdx] at hi ⊢
    by_cases hbefore : i < index
    · rw [if_pos hbefore] at hi ⊢
      exact h.waiting i hi
    · rw [if_neg hbefore] at hi ⊢
      exact h.waiting (i + 1) hi
  · rcases getElem?_concat_eq_some.mp hi with hi | ⟨rfl, rfl⟩
    · exact getElem?_concat_eq_some.mpr (.inl (h.refused i hi))
    · obtain ⟨hstopped, hcall⟩ := h.waiting index hb
      have hstarting : c = .starting := Option.some.inj (hc.symm.trans hcall)
      exact getElem?_concat_eq_some.mpr (.inr ⟨h.answered_length, hr hstarting hstopped⟩)

theorem step?_answer {index : Nat} {signal : Option ServingSignal} {r : Except PluginError Nat}
    (hs : a.serving.step? (.goOn index signal) = some ((a.serving.answer r).finish index)) :
    a.step? (.goOn index signal) =
      some ⟨(a.serving.answer r).finish index, a.late.eraseIdx index, a.answered ++ a.late[index]?.toList⟩ := by
  have hless : a.serving.answers.length < ((a.serving.answer r).finish index).answers.length := by
    rw [Serving.finish, Serving.answer, List.length_append]
    exact Nat.lt_succ_self _
  rw [step?, hs, Option.bind_eq_bind, Option.bind_some]
  exact if_pos hless

theorem step?_go {index : Nat} {signal : Option ServingSignal} (hs : a.serving.step? (.goOn index signal) = some s)
    (hanswers : s.answers = a.serving.answers) : a.step? (.goOn index signal) = some { a with serving := s } := by
  rw [step?, hs, Option.bind_eq_bind, Option.bind_some]
  exact if_neg (by rw [hanswers]; exact Nat.lt_irrefl _)

theorem Refusing.step (h : a.Refusing) (hstep : a.step? m = some a') : a'.Refusing := by
  obtain ⟨s, hs, hrest⟩ := Option.bind_eq_some_iff.mp hstep
  cases Serving.stepped_iff.mp hs with
  | start =>
    cases hrest
    exact h.start
  | stop =>
    cases hrest
    exact ⟨h.late_length, h.answered_length, fun i hi => ⟨rfl, (h.waiting i hi).2⟩, h.refused⟩
  | endAll =>
    cases hrest
    exact ⟨h.late_length, h.answered_length, h.waiting, h.refused⟩
  | refuse call =>
    cases hstep.symm.trans (step?_answer hs)
    exact h.finish call fun _ _ => rfl
  | know call running =>
    cases hstep.symm.trans (step?_answer hs)
    exact h.finish call fun _ hstopped => absurd (running.symm.trans hstopped) (by decide)
  | fail e call | ready call | abandon e call =>
    cases hstep.symm.trans (step?_answer hs)
    exact h.finish call nofun
  | look call running =>
    cases hstep.symm.trans (step?_go hs rfl)
    exact h.proceed call (fun _ => running) rfl rfl rfl
  | bind port call | serve call =>
    cases hstep.symm.trans (step?_go hs rfl)
    exact h.proceed call nofun rfl rfl rfl

theorem Refusing.run (h : a.Refusing) (hrun : a.run? moves = some a') : a'.Refusing := by
  induction moves generalizing a with
  | nil =>
    cases hrun
    exact h
  | cons m moves ih =>
    obtain ⟨a₁, hstep, hrun⟩ := Option.bind_eq_some_iff.mp hrun
    exact ih (h.step hstep) hrun

end Attended

/-- After any moves of any number of calls to start and to stop: there is a loop for every server, the first server has the
    address, and calls are answered with ports of servers only. As many servers were started, or are about to be, as calls
    were given ports by the network. A call that was issued after a stop had begun is told so. Where no call looks while
    another one is about to serve, there is one server at most, and all answers with a port agree. A second server is still
    possible if and only if calls may still look, or enough of those that have looked are under way. -/
theorem Serving.run_serves {moves : List ServingMove} {s : Serving} (h : run? {} moves = some s) :
    (s.loops = s.servers.length ∧ s.address = s.servers.head? ∧ ∀ port, .ok port ∈ s.answers → port ∈ s.servers) ∧
      s.servers.length + s.openings.countP Opening.isBound = moves.countP ServingMove.binds ∧
      (∃ a : Attended, Attended.run? {} moves = some a ∧ a.serving = s ∧ a.answered.length = s.answers.length ∧
        ∀ i : Nat, a.answered[i]? = some true → s.answers[i]? = some (.error .stopped)) ∧
      (Apart {} moves → s.servers.length ≤ 1 ∧ ∀ port, .ok port ∈ s.answers → s.address = some port) ∧
      ((∃ more t, run? s more = some t ∧ 2 ≤ t.servers.length) ↔
        s.stopped = false ∧ s.address = none ∨ 2 ≤ s.servers.length + s.pending) := by
  have hkept : s.Kept := run?_induction (fun _ _ _ hs hm => hs.step hm) h .initial
  have hbinds := binds_run h
  have hinitial : Attended.Refusing {} := ⟨rfl, rfl, nofun, nofun⟩
  obtain ⟨a, ha, rfl⟩ := Attended.exists_run (a := {}) h
  have hrefusing := hinitial.run ha
  have happart : Apart {} moves → a.serving.servers.length ≤ 1 ∧
      ∀ port, .ok port ∈ a.serving.answers → a.serving.address = some port := by
    intro hapart
    have hone : a.serving.servers.length ≤ 1 :=
      Nat.le_trans (Nat.le_add_right ..) (prospect_le_one .initial (Nat.zero_le 1) hapart h)
    refine ⟨hone, fun port hport => ?_⟩
    -- An answer with a port names a server, and there is only one.
    obtain ⟨first, hfirst⟩ : ∃ first, a.serving.servers = [first] :=
      List.length_eq_one_iff.mp (Nat.le_antisymm hone (List.length_pos_of_mem (hkept.answered port hport)))
    have hmem := hkept.answered port hport
    rw [hfirst, List.mem_singleton] at hmem
    rw [hkept.address, hfirst, hmem]
    rfl
  exact ⟨⟨hkept.loops, hkept.address, hkept.answered⟩, by simpa using hbinds,
    ⟨a, ha, rfl, hrefusing.answered_length, hrefusing.refused⟩, happart, two_servers_iff⟩

/-- A second call is given the address of the first one, and a third one is told of the stop. -/
theorem Serving.run_serves_again :
    let moves : List ServingMove := [.start, .goOn 0 none, .goOn 0 (some (.bound (.ok 40001))), .goOn 0 none,
      .goOn 0 (some (.ready none)), .start, .goOn 0 none, .stop, .start, .goOn 0 none]
    ∃ s, run? {} moves = some s ∧ Apart {} moves ∧ s.answers = [.ok 40001, .ok 40001, .error .stopped] ∧
      s.servers.length ≤ 1 ∧ ∀ port, .ok port ∈ s.answers → s.address = some port := by
  intro moves
  have hapart : Apart {} moves := by
    simp [moves, Apart, Overlaps, Looks, step?, openingStep?, Serving.answer, pending, Opening.isPending]
  have hrun : run? {} moves = some ⟨true, some 40001, [40001], 1, false, [], [.ok 40001, .ok 40001, .error .stopped]⟩ := rfl
  obtain ⟨-, -, -, honce, -⟩ := run_serves hrun
  exact ⟨_, hrun, hapart, rfl, honce hapart⟩

/-- Two calls that look before either of them serves start a server each and are given different addresses. -/
theorem Serving.run_serves_twice : ∃ s, run? {} [.start, .start, .goOn 0 none, .goOn 1 none,
      .goOn 0 (some (.bound (.ok 40001))), .goOn 1 (some (.bound (.ok 40002))), .goOn 0 none, .goOn 1 none,
      .goOn 0 (some (.ready none)), .goOn 0 (some (.ready none))] = some s ∧
    s.servers = [40001, 40002] ∧ s.loops = 2 ∧ s.answers = [.ok 40001, .ok 40002] :=
  ⟨_, rfl, rfl, rfl, rfl⟩

end Intendant
