import Intendant.Network.Exchange
import Intendant.Proofs.Registry.Safety

/-! # Runs of a registry at work

After any moves of any number of registrations, health rounds and stops, the registry is safe and every further move
treats the plugins orderly: an entry stays until it is evicted or drained and is never replaced, and a registration is
accepted exactly if it adds an entry. After a stop has drained the registry it stays empty. -/

namespace Intendant.RegistrySystem

/-- The system after some moves, if all of them are possible. -/
def run? (s : RegistrySystem) : List RegistryMove → Option RegistrySystem
  | [] => some s
  | m :: moves => (s.step? m).bind (run? · moves)

/-- The move ends a health round in which the checkup of a plugin fails. -/
def Evicting (s : RegistrySystem) (m : RegistryMove) (p : String × Registered) : Prop :=
  ∃ index plugins ready, m = .goOn index (some (.probed ready)) ∧ s.tasks[index]? = some (.probing plugins) ∧
    s.registry.Evicts (checkups plugins ready) p

/-- The move drops all plugins after a stop. -/
def Draining (s : RegistrySystem) (m : RegistryMove) : Prop :=
  ∃ index, m = .goOn index none ∧ s.tasks[index]? = some .draining

/-- What a move may do to the plugins, together with the answer that it gives. -/
structure Orderly (s : RegistrySystem) (m : RegistryMove) (s' : RegistrySystem) : Prop where
  stays : ∀ p ∈ s.registry.plugins, p ∈ s'.registry.plugins ↔ ¬(Evicting s m p ∨ Draining s m)
  stopped : ∀ p ∈ s.registry.plugins, p ∉ s'.registry.plugins → p.2.client ∈ s'.stoppedClients
  unreplaced : ∀ p ∈ s.registry.plugins, ∀ q ∈ s'.registry.plugins, q.1 = p.1 → q = p
  answered : s'.registrations = s.registrations ∧ s'.registry.plugins ⊆ s.registry.plugins ∨
    ∃ r, s'.registrations = s.registrations ++ [r] ∧
      (r.answer.accepted = true ↔ ∃ client, r.client = some client ∧
        s'.registry.plugins = s.registry.plugins ++ [(r.info.name, ⟨r.info, client⟩)]) ∧
      (r.answer.accepted = false → s'.registry = s.registry ∧ ∀ c, r.client = some c → c ∈ s'.stoppedClients)

variable {s s' : RegistrySystem} {m : RegistryMove} {moves : List RegistryMove}

/-! ### Orderly moves -/

/-- A move that leaves the plugins as they are. -/
theorem Orderly.of_same (h : s.Safe) (hplugins : s'.registry.plugins = s.registry.plugins)
    (hstays : ∀ p ∈ s.registry.plugins, ¬(Evicting s m p ∨ Draining s m))
    (hanswered : s'.registrations = s.registrations ∨ ∃ r, s'.registrations = s.registrations ++ [r] ∧
      r.answer.accepted = false ∧ s'.registry = s.registry ∧ ∀ c, r.client = some c → c ∈ s'.stoppedClients) :
    Orderly s m s' := by
  refine ⟨fun p hp => ?_, fun p hp hgone => ?_, fun p hp q hq heq => ?_, ?_⟩
  · rw [hplugins]
    exact iff_of_true hp (hstays p hp)
  · exact absurd (hplugins ▸ hp) hgone
  · exact h.registry.eq_of_name (hplugins ▸ hq) hp heq
  · rcases hanswered with hsame | ⟨r, hregistrations, hrejected, hrest⟩
    · exact .inl ⟨hsame, hplugins ▸ List.Subset.refl _⟩
    · refine .inr ⟨r, hregistrations, ?_, fun _ => hrest⟩
      rw [hrejected, hplugins]
      simp

theorem not_evicting_of_task {index : Nat} {signal : Option RegistrySignal} {t : RegistryTask}
    (ht : s.tasks[index]? = some t) (hprobing : ∀ plugins, t ≠ .probing plugins) (hdraining : t ≠ .draining)
    (p : String × Registered) : ¬(Evicting s (.goOn index signal) p ∨ Draining s (.goOn index signal)) := by
  rintro (⟨index', plugins, ready, hm, htask, -⟩ | ⟨index', hm, htask⟩) <;> cases hm <;> rw [ht] at htask
  · exact hprobing _ (Option.some.inj htask)
  · exact hdraining (Option.some.inj htask)

theorem getElem?_tasks {before after : List RegistryTask} {t : RegistryTask} (tasks : s.tasks = before ++ t :: after) :
    s.tasks[before.length]? = some t := by
  simp [tasks]

/-- What the end of a health round removes. -/
theorem evicting_or_draining_iff {before after : List RegistryTask} {plugins : List (String × Nat)} {ready : List Bool}
    (tasks : s.tasks = before ++ .probing plugins :: after) (p : String × Registered) :
    Evicting s (.goOn before.length (some (.probed ready))) p ∨ Draining s (.goOn before.length (some (.probed ready))) ↔
      s.registry.Evicts (checkups plugins ready) p := by
  constructor
  · rintro (⟨_, plugins', _, hm, ht, hevicts⟩ | ⟨_, hm, -⟩) <;> cases hm
    cases (getElem?_tasks tasks).symm.trans ht
    exact hevicts
  · exact fun hevicts => .inl ⟨_, plugins, ready, rfl, getElem?_tasks tasks, hevicts⟩

theorem Safe.orderly_check (h : s.Safe) {before after : List RegistryTask} {plugins : List (String × Nat)} {ready : List Bool}
    (tasks : s.tasks = before ++ .probing plugins :: after) (hlength : plugins.length = ready.length) :
    Orderly s (.goOn before.length (some (.probed ready)))
      (({ s with registry := (s.registry.takeCheckups (checkups plugins ready)).2 }.stopClients
        (s.registry.takeCheckups (checkups plugins ready)).1).finish before after) := by
  have hchecked := h.checked (tasks ▸ List.mem_append_cons_self) hlength
  have hmem : ∀ p, p ∈ (s.registry.takeCheckups (checkups plugins ready)).2.plugins ↔
      p ∈ s.registry.plugins ∧ ¬s.registry.Evicts (checkups plugins ready) p := by
    intro p
    rw [hchecked.plugins]
    simp
  have hplugins : (s.registry.takeCheckups (checkups plugins ready)).2.plugins ⊆ s.registry.plugins :=
    fun p hp => ((hmem p).mp hp).1
  refine ⟨fun p hp => ?_, fun p hp hgone => ?_, fun p hp q hq heq => ?_, .inl ⟨rfl, hplugins⟩⟩
  · rw [evicting_or_draining_iff tasks]
    exact (hmem p).trans (and_iff_right hp)
  · have hevicts : s.registry.Evicts (checkups plugins ready) p := by
      by_contra hkept
      exact hgone ((hmem p).mpr ⟨hp, hkept⟩)
    exact List.mem_append_right _ ((hchecked.evicted _).mpr ⟨p, hp, hevicts, rfl⟩)
  · exact h.registry.eq_of_name (hplugins hq) hp heq

theorem Safe.orderly (h : s.Safe) (hm : Stepped s m s') : Orderly s m s' := by
  cases hm with
  | register | refresh | stop =>
    refine .of_same h rfl (fun p _ => ?_) (.inl rfl)
    rintro (⟨_, _, _, hm, -⟩ | ⟨_, hm, -⟩) <;> cases hm
  | allow tasks | dial tasks | list tasks =>
    exact .of_same h rfl (fun p _ => not_evicting_of_task (getElem?_tasks tasks) nofun nofun p) (.inl rfl)
  | refuse tasks | fail _ tasks =>
    exact .of_same h rfl (fun p _ => not_evicting_of_task (getElem?_tasks tasks) nofun nofun p)
      (.inr ⟨_, rfl, rfl, rfl, nofun⟩)
  | reject _ tasks =>
    refine .of_same h rfl (fun p _ => not_evicting_of_task (getElem?_tasks tasks) nofun nofun p) (.inr ⟨_, rfl, rfl, rfl, ?_⟩)
    intro c hc
    cases hc
    exact List.mem_append_right _ (List.mem_singleton_self _)
  | @accept _ _ info client tasks _ free =>
    refine ⟨fun p hp => ?_, fun p hp hgone => ?_, fun p hp q hq heq => ?_, .inr ⟨_, rfl, ?_, nofun⟩⟩
    · exact iff_of_true (List.mem_append_left _ hp) (not_evicting_of_task (getElem?_tasks tasks) nofun nofun p)
    · exact absurd (List.mem_append_left _ hp) hgone
    · rcases List.mem_append.mp hq with hq | hq
      · exact h.registry.eq_of_name hq hp heq
      · cases List.mem_singleton.mp hq
        exact absurd (List.mem_map.mpr ⟨p, hp, heq.symm⟩) free
    · exact iff_of_true rfl ⟨client, rfl, rfl⟩
  | check tasks hlength => exact h.orderly_check tasks hlength
  | drain tasks =>
    refine ⟨fun p hp => ?_, fun p hp _ => ?_, fun p _ q hq _ => (nomatch hq), .inl ⟨rfl, nofun⟩⟩
    · exact iff_of_false nofun (not_not.mpr (.inr ⟨_, rfl, getElem?_tasks tasks⟩))
    · exact List.mem_append_right _ (List.mem_map.mpr ⟨p, hp, rfl⟩)

/-! ### Runs -/

theorem Safe.run (h : s.Safe) (hrun : s.run? moves = some s') : s'.Safe := by
  induction moves generalizing s with
  | nil => exact Option.some.inj hrun ▸ h
  | cons m moves ih =>
    obtain ⟨s₁, hstep, hrest⟩ := Option.bind_eq_some_iff.mp hrun
    exact ih (h.step (stepped_of_step? hstep)) hrest

/-- A stopped registry without plugins stays so. -/
theorem Stepped.stays_empty (hm : Stepped s m s') (hstopped : s.registry.stopped = true)
    (hempty : s.registry.plugins = []) (h : s.Safe) : s'.registry.stopped = true ∧ s'.registry.plugins = [] := by
  cases hm with
  | accept _ running => exact absurd running (by simp [hstopped])
  | check tasks hlength =>
    have hchecked := h.checked (tasks ▸ List.mem_append_cons_self) hlength
    refine ⟨hchecked.stopped.trans hstopped, hchecked.plugins.trans ?_⟩
    rw [hempty, List.filter_nil]
  | drain => exact ⟨hstopped, rfl⟩
  | stop => exact ⟨rfl, hempty⟩
  | _ => exact ⟨hstopped, hempty⟩

theorem Safe.run_empty (h : s.Safe) (hstopped : s.registry.stopped = true) (hempty : s.registry.plugins = [])
    (hrun : s.run? moves = some s') : s'.registry.plugins = [] := by
  induction moves generalizing s with
  | nil => exact Option.some.inj hrun ▸ hempty
  | cons m moves ih =>
    obtain ⟨s₁, hstep, hrest⟩ := Option.bind_eq_some_iff.mp hrun
    have hm := stepped_of_step? hstep
    obtain ⟨hstopped₁, hempty₁⟩ := hm.stays_empty hstopped hempty h
    exact ih (h.step hm) hstopped₁ hempty₁ hrest

/-- Draining happens after the stop was raised, and leaves nothing. -/
theorem Safe.draining (h : s.Safe) (hm : Stepped s m s') (hdrains : Draining s m) :
    s'.registry.stopped = true ∧ s'.registry.plugins = [] := by
  obtain ⟨index, rfl, ht⟩ := hdrains
  have hstopped : s.registry.stopped = true := h.tasks .draining (List.mem_of_getElem? ht)
  cases hm with
  | drain => exact ⟨hstopped, rfl⟩
  | refuse tasks | allow tasks | accept tasks | reject _ tasks | list tasks => cases (getElem?_tasks tasks).symm.trans ht

/-- A registry is safe after any moves of any number of registrations, health rounds and stops. It is sound; its plugins
    are those that were accepted and whose clients were not stopped, in the order of their acceptance, and after the
    local actuators they are what a planner gets; the client of a registration that was rejected is stopped; every
    further move is orderly; and once a stop has drained the registry it stays empty. -/
theorem run_safe [Json.Reading] (retries : Nat) (moves : List RegistryMove) {s : RegistrySystem}
    (h : run? { registry := { retries } } moves = some s) :
    s.registry.Sound ∧
    s.registry.plugins.map (·.2) = s.accepted.filter (·.client ∉ s.stoppedClients) ∧
    (∀ (n : Network) (i : Nat) (p : RegistryProcess), n.registries[i]? = some p → p.registry = s.registry →
      n.actuators i = (p.locals.map fun a => a.actuator.within (·.journal) fun n j => { n with journal := j }) ++
        (s.accepted.filter (·.client ∉ s.stoppedClients)).filterMap fun e =>
          n.clients[e.client]?.map (Network.clientActuator e.client)) ∧
    (∀ r ∈ s.registrations, r.answer.accepted = false → ∀ c, r.client = some c → c ∈ s.stoppedClients) ∧
    (∀ m s', s.step? m = some s' → Orderly s m s') ∧
    ∀ m s', s.step? m = some s' → Draining s m → ∀ more s'', s'.run? more = some s'' →
      s''.registry.plugins = [] ∧ s''.registry.failures = .empty := by
  have hs : s.Safe := (Safe.initial retries).run h
  refine ⟨hs.registry, hs.order, fun n i p hp hregistry => ?_, hs.rejected, fun m s' hstep => ?_,
    fun m s' hstep hdrains more s'' hrun => ?_⟩
  · rw [Network.actuators, hp, ← hs.order, ← hregistry, List.filterMap_map]
    rfl
  · exact hs.orderly (stepped_of_step? hstep)
  · have hm := stepped_of_step? hstep
    have hs' := hs.step hm
    obtain ⟨hstopped, hempty⟩ := hs.draining hm hdrains
    have hempty'' := hs'.run_empty hstopped hempty hrun
    exact ⟨hempty'', (hs'.run hrun).registry.failures_eq_empty hempty''⟩

/-- Two registrations of one plugin that are both dialed before the later one is accepted, and a stop that is raised but
    has not drained the registry yet. -/
def race : List RegistryMove :=
  let info : Plugin.Info := { name := "scaler", endpoint := "127.0.0.1:4000" }
  [.register info, .register info, .goOn 0 none, .goOn 1 none, .goOn 0 (some (.dialed none)),
    .goOn 1 (some (.dialed none)), .goOn 1 none, .goOn 0 none, .stop]

theorem run_safe_race : ∃ s, run? { registry := { retries := 3 } } race = some s ∧ s.registry.Sound ∧
    s.registry.names = ["scaler"] ∧ s.stoppedClients = [0] ∧
    s.registry.plugins.map (·.2) = s.accepted.filter (·.client ∉ s.stoppedClients) ∧
    ∀ s', s.step? (.goOn 0 none) = some s' → ∀ more s'', s'.run? more = some s'' → s''.registry.plugins = [] := by
  let _ : Json.Reading := .scaled
  have hview : (run? { registry := { retries := 3 } } race).map (fun s =>
      (s.registry.names, s.stoppedClients)) = some (["scaler"], [0]) := by decide
  have htasks : (run? { registry := { retries := 3 } } race).map (·.tasks) = some [.draining] := rfl
  obtain ⟨s, hs, heq⟩ := Option.map_eq_some_iff.mp hview
  obtain ⟨hnames, hstopped⟩ := Prod.mk.inj heq
  obtain ⟨hsound, horder, -, -, -, hempty⟩ := run_safe 3 race hs
  have hlast : s.tasks = [.draining] := by simpa [hs] using htasks
  have hdrains : Draining s (.goOn 0 none) := ⟨0, rfl, by simp [hlast]⟩
  exact ⟨s, hs, hsound, hnames, hstopped, horder,
    fun s' hstep more s'' hrun => (hempty _ s' hstep hdrains more s'' hrun).1⟩

end Intendant.RegistrySystem
