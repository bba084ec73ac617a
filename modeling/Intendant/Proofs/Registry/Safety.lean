import Intendant.Proofs.Registry.Steps

/-! # What registries at work preserve

Whatever the tasks do in whatever order, the registry stays sound, no client serves two registrations, and the plugins
are those that were accepted and whose clients were not stopped, in the order of their acceptance. -/

namespace Intendant.RegistrySystem

/-- The client of a task that is about to accept a plugin. -/
def taskClient? : RegistryTask → Option Nat
  | .committing _ client => some client
  | _ => none

/-- The clients made so far for registrations that are under way or answered. -/
def clients (s : RegistrySystem) : List Nat := s.tasks.filterMap taskClient? ++ s.registrations.filterMap (·.client)

/-- The plugins that were accepted, the earliest one first. -/
def accepted (s : RegistrySystem) : List Registered :=
  s.registrations.filterMap fun r => if r.answer.accepted then r.client.map (⟨r.info, ·⟩) else none

/-- What a task relies on. -/
def Prepared (stopped : Bool) : RegistryTask → Prop
  | .dialing info => info.Admissible
  | .committing info _ => info.Admissible
  | .probing plugins => (plugins.map (·.1)).Nodup
  | .draining => stopped = true
  | _ => True

/-- What every step of the system preserves: the registry is sound, clients are numbered once, and those that were not
    accepted are stopped. -/
structure Safe (s : RegistrySystem) : Prop where
  registry : s.registry.Sound
  tasks : ∀ t ∈ s.tasks, Prepared s.registry.stopped t
  clients_nodup : s.clients.Nodup
  clients_lt : ∀ c ∈ s.clients, c < s.freshClient
  stopped : ∀ c ∈ s.stoppedClients, c ∈ s.registrations.filterMap (·.client)
  rejected : ∀ r ∈ s.registrations, r.answer.accepted = false → ∀ c, r.client = some c → c ∈ s.stoppedClients
  order : s.registry.plugins.map (·.2) = s.accepted.filter (·.client ∉ s.stoppedClients)

variable {s s' : RegistrySystem} {m : RegistryMove}

theorem Safe.initial (retries : Nat) : Safe { registry := { retries } } where
  registry := .initial retries
  tasks _ h := nomatch h
  clients_nodup := .nil
  clients_lt _ h := nomatch h
  stopped _ h := nomatch h
  rejected _ h := nomatch h
  order := rfl

theorem accepted_answer (s : RegistrySystem) (info : Plugin.Info) (client : Option Nat) (a : Plugin.RegisterAnswer) :
    (s.answer info client a).accepted =
      s.accepted ++ if a.accepted then (client.map (⟨info, ·⟩ : Nat → Registered)).toList else [] := by
  cases h : a.accepted <;> cases client <;> simp [accepted, answer, h]

theorem accepted_rejection (s : RegistrySystem) (info : Plugin.Info) (client : Option Nat) (reason : String) :
    (s.answer info client (.rejected reason)).accepted = s.accepted :=
  (accepted_answer ..).trans (List.append_nil _)

theorem mem_clients_of_accepted {p : Registered} (hp : p ∈ s.accepted) :
    p.client ∈ s.registrations.filterMap (·.client) := by
  obtain ⟨r, hr, heq⟩ := List.mem_filterMap.mp hp
  split at heq
  · obtain ⟨c, hc, rfl⟩ := Option.map_eq_some_iff.mp heq
    exact List.mem_filterMap.mpr ⟨r, hr, hc⟩
  · cases heq

/-- The clients of accepted plugins are distinct. -/
theorem Safe.accepted_nodup (h : s.Safe) : (s.accepted.map (·.client)).Nodup := by
  have heq : s.accepted.map (·.client) = (s.registrations.filter (·.answer.accepted)).filterMap (·.client) := by
    rw [accepted, List.map_filterMap, List.filterMap_filter]
    refine List.filterMap_congr fun r _ => ?_
    split <;> simp [Function.comp_def]
  rw [heq]
  exact (List.filter_sublist.filterMap _).nodup (List.nodup_append.mp h.clients_nodup).2.1

/-- The clients of registered plugins are distinct. -/
theorem Safe.eq_of_client (h : s.Safe) {p q : String × Registered} (hp : p ∈ s.registry.plugins)
    (hq : q ∈ s.registry.plugins) (heq : p.2.client = q.2.client) : p = q := by
  have hnodup : (s.registry.plugins.map (·.2.client)).Nodup := by
    have hsub : (s.registry.plugins.map (·.2)).Sublist s.accepted := h.order ▸ List.filter_sublist
    simpa [Function.comp_def] using (hsub.map (·.client)).nodup h.accepted_nodup
  exact List.inj_on_of_nodup_map hnodup hp hq heq

/-! ### One step -/

theorem Prepared.mono {before after : Bool} (h : before = true → after = true) {t : RegistryTask}
    (ht : Prepared before t) : Prepared after t := by
  cases t <;> first | exact ht | exact h ht

theorem map_name_checkups {plugins : List (String × Nat)} {ready : List Bool} (h : plugins.length = ready.length) :
    (checkups plugins ready).map (·.name) = plugins.map (·.1) := by
  rw [checkups, List.map_map]
  have hfst : (plugins.zip ready).map Prod.fst = plugins := List.map_fst_zip h.le
  conv_rhs => rw [← hfst, List.map_map]
  rfl

/-- A health round finds the registry and the names to be checked as they should be. -/
theorem Safe.checked (h : s.Safe) {plugins : List (String × Nat)} {ready : List Bool}
    (ht : .probing plugins ∈ s.tasks) (hlength : plugins.length = ready.length) :
    Registry.Checked s.registry (checkups plugins ready) (s.registry.takeCheckups (checkups plugins ready)).1
      (s.registry.takeCheckups (checkups plugins ready)).2 :=
  h.registry.takeCheckups (by
    rw [map_name_checkups hlength]
    exact h.tasks _ ht)

theorem Safe.registry_step (h : s.Safe) (hm : Stepped s m s') : s'.registry.Sound := by
  cases hm with
  | @accept _ _ _ client tasks _ free =>
    have hinfo := h.tasks (.committing _ client) (tasks ▸ List.mem_append_cons_self)
    exact h.registry.accept free hinfo client
  | check tasks hlength => exact (h.checked (tasks ▸ List.mem_append_cons_self) hlength).sound
  | drain =>
    exact ⟨.nil, fun _ => by simp [finish, stopClients, Registry.drain, Registry.names], fun _ hp => nomatch hp⟩
  | stop => exact ⟨h.registry.names_nodup, h.registry.counted, h.registry.entry⟩
  | _ => exact h.registry

theorem mem_tasks_begin {new t : RegistryTask} (ht : t ∈ (s.begin new).tasks) : t ∈ s.tasks ∨ t = new := by
  simpa [begin] using ht

theorem mem_tasks_finish {before after : List RegistryTask} {old t : RegistryTask}
    (tasks : s.tasks = before ++ old :: after) (ht : t ∈ before ++ after) : t ∈ s.tasks := by
  rw [tasks]
  simp only [List.mem_append, List.mem_cons] at ht ⊢
  tauto

theorem mem_tasks_proceed {before after : List RegistryTask} {old new t : RegistryTask}
    (tasks : s.tasks = before ++ old :: after) (ht : t ∈ before ++ new :: after) : t ∈ s.tasks ∨ t = new := by
  rw [tasks]
  simp only [List.mem_append, List.mem_cons] at ht ⊢
  tauto

theorem Safe.tasks_step (h : s.Safe) (hm : Stepped s m s') : ∀ t ∈ s'.tasks, Prepared s'.registry.stopped t := by
  intro t ht
  cases hm with
  | register | refresh =>
    rcases mem_tasks_begin ht with ht | rfl
    · exact h.tasks t ht
    · trivial
  | stop =>
    rcases mem_tasks_begin ht with ht | rfl
    · exact (h.tasks t ht).mono fun _ => rfl
    · exact rfl
  | allow tasks hadmitted =>
    rcases mem_tasks_proceed tasks ht with ht | rfl
    · exact h.tasks t ht
    · exact Registry.admissible_of_refusal? hadmitted
  | dial tasks =>
    rcases mem_tasks_proceed tasks ht with ht | rfl
    · exact h.tasks t ht
    · exact h.tasks (.dialing _) (tasks ▸ List.mem_append_cons_self)
  | list tasks =>
    rcases mem_tasks_proceed tasks ht with ht | rfl
    · exact h.tasks t ht
    · have hnames : s.registry.snapshot.map (·.1) = s.registry.names := by
        simp [Registry.snapshot, Registry.names, Function.comp_def]
      show (s.registry.snapshot.map (·.1)).Nodup
      rw [hnames]
      exact h.registry.names_nodup
  | check tasks hlength =>
    have hstopped := (h.checked (tasks ▸ List.mem_append_cons_self) hlength).stopped
    exact (h.tasks t (mem_tasks_finish tasks ht)).mono fun hs => hstopped.trans hs
  | refuse tasks | fail _ tasks | accept tasks | reject _ tasks | drain tasks =>
    exact h.tasks t (mem_tasks_finish tasks ht)

/-- A step makes no client, or the next one. -/
theorem clients_step (hm : Stepped s m s') :
    s'.clients.Perm s.clients ∧ s'.freshClient = s.freshClient ∨
    s'.clients.Perm (s.freshClient :: s.clients) ∧ s'.freshClient = s.freshClient + 1 := by
  cases hm with
  | register | refresh | stop => exact .inl ⟨by simp [clients, begin, List.filterMap_cons, taskClient?], rfl⟩
  | refuse tasks | fail _ tasks | check tasks | drain tasks =>
    exact .inl ⟨by simp [clients, finish, answer, stopClients, tasks, List.filterMap_cons, taskClient?], rfl⟩
  | allow tasks | list tasks => exact .inl ⟨by simp [clients, proceed, tasks, List.filterMap_cons, taskClient?], rfl⟩
  | @dial before after info tasks =>
    refine .inr ⟨?_, rfl⟩
    simp only [clients, proceed, tasks, List.filterMap_append, List.filterMap_cons, taskClient?, List.append_assoc,
      List.cons_append]
    exact List.perm_middle
  | @accept before after info client tasks | @reject before after info client _ tasks =>
    refine .inl ⟨?_, rfl⟩
    simp only [clients, finish, answer, stopClients, tasks, List.filterMap_append, List.filterMap_cons, taskClient?,
      List.filterMap_nil, List.append_assoc, List.cons_append]
    refine .trans ?_ List.perm_middle.symm
    simpa [List.append_assoc] using List.perm_append_singleton client
      (before.filterMap taskClient? ++ after.filterMap taskClient? ++ s.registrations.filterMap (·.client))

/-- The client of a registered plugin belongs to an answered registration and was not stopped. -/
theorem Safe.client_known (h : s.Safe) {p : String × Registered} (hp : p ∈ s.registry.plugins) :
    p.2.client ∈ s.registrations.filterMap (·.client) ∧ p.2.client ∉ s.stoppedClients := by
  have hmem : p.2 ∈ s.accepted.filter (·.client ∉ s.stoppedClients) := h.order ▸ List.mem_map_of_mem hp
  obtain ⟨haccepted, hrunning⟩ := List.mem_filter.mp hmem
  exact ⟨mem_clients_of_accepted haccepted, of_decide_eq_true hrunning⟩

/-- The client of a registration under way belongs to no answered one. -/
theorem Safe.client_new (h : s.Safe) {info : Plugin.Info} {client : Nat} (ht : .committing info client ∈ s.tasks) :
    client ∉ s.registrations.filterMap (·.client) := by
  obtain ⟨-, -, hdisjoint⟩ := List.nodup_append.mp h.clients_nodup
  exact fun hmem => hdisjoint client (List.mem_filterMap.mpr ⟨_, ht, rfl⟩) client hmem rfl

theorem Safe.stopped_step (h : s.Safe) (hm : Stepped s m s') :
    ∀ c ∈ s'.stoppedClients, c ∈ s'.registrations.filterMap (·.client) := by
  intro c hc
  cases hm with
  | refuse | fail | accept =>
    simp only [finish, answer, List.filterMap_append]
    exact List.mem_append_left _ (h.stopped c hc)
  | reject =>
    simp only [finish, answer, stopClients, List.filterMap_append, List.mem_append] at hc ⊢
    exact hc.imp (h.stopped c) fun hc => by simpa using hc
  | check tasks hlength =>
    rcases List.mem_append.mp hc with hc | hc
    · exact h.stopped c hc
    · obtain ⟨p, hp, -, rfl⟩ := ((h.checked (tasks ▸ List.mem_append_cons_self) hlength).evicted c).mp hc
      exact (h.client_known hp).1
  | drain =>
    rcases List.mem_append.mp hc with hc | hc
    · exact h.stopped c hc
    · obtain ⟨p, hp, rfl⟩ := List.mem_map.mp hc
      exact (h.client_known hp).1
  | _ => exact h.stopped c hc

theorem Safe.rejected_step (h : s.Safe) (hm : Stepped s m s') :
    ∀ r ∈ s'.registrations, r.answer.accepted = false → ∀ c, r.client = some c → c ∈ s'.stoppedClients := by
  intro r hr hrejected c hc
  cases hm with
  | refuse | fail =>
    rcases List.mem_append.mp hr with hr | hr
    · exact h.rejected r hr hrejected c hc
    · cases List.mem_singleton.mp hr
      cases hc
  | accept =>
    rcases List.mem_append.mp hr with hr | hr
    · exact h.rejected r hr hrejected c hc
    · cases List.mem_singleton.mp hr
      cases hrejected
  | reject =>
    rcases List.mem_append.mp hr with hr | hr
    · exact List.mem_append_left _ (h.rejected r hr hrejected c hc)
    · cases List.mem_singleton.mp hr
      cases hc
      exact List.mem_append_right _ (List.mem_singleton_self _)
  | check | drain => exact List.mem_append_left _ (h.rejected r hr hrejected c hc)
  | _ => exact h.rejected r hr hrejected c hc

/-- Stopping some more clients leaves the plugins whose clients are not among them. -/
theorem Safe.order_filter (h : s.Safe) (stopped : List Nat) (keep : String × Registered → Bool)
    (hkeep : ∀ p ∈ s.registry.plugins, keep p = decide (p.2.client ∉ stopped)) :
    (s.registry.plugins.filter keep).map (·.2) = s.accepted.filter (·.client ∉ s.stoppedClients ++ stopped) := by
  have hfilter : s.accepted.filter (·.client ∉ s.stoppedClients ++ stopped) =
      (s.registry.plugins.map (·.2)).filter (·.client ∉ stopped) := by
    rw [h.order, List.filter_filter]
    exact List.filter_congr fun p _ => by simp [Bool.and_comm]
  rw [hfilter, List.filter_map]
  exact congrArg _ (List.filter_congr fun p hp => hkeep p hp)

theorem Safe.order_accept (h : s.Safe) {info : Plugin.Info} {client : Nat} (ht : .committing info client ∈ s.tasks) :
    s.registry.plugins.map (·.2) ++ [(⟨info, client⟩ : Registered)] =
      (s.accepted ++ [(⟨info, client⟩ : Registered)]).filter (·.client ∉ s.stoppedClients) := by
  have hrunning : client ∉ s.stoppedClients := fun hc => h.client_new ht (h.stopped client hc)
  have hkept : ([⟨info, client⟩] : List Registered).filter (·.client ∉ s.stoppedClients) = [⟨info, client⟩] := by
    simp [hrunning]
  rw [List.filter_append, h.order, hkept]

/-- The client of a rejected registration serves no plugin, so that stopping it changes nothing. -/
theorem Safe.order_reject (h : s.Safe) {info : Plugin.Info} {client : Nat} (ht : .committing info client ∈ s.tasks) :
    s.registry.plugins.map (·.2) = s.accepted.filter (·.client ∉ s.stoppedClients ++ [client]) := by
  have hkeep : ∀ p ∈ s.registry.plugins, true = decide (p.2.client ∉ [client]) := by
    intro p hp
    have hne : p.2.client ≠ client := fun heq => h.client_new ht (heq ▸ (h.client_known hp).1)
    simp [hne]
  simpa using h.order_filter [client] (fun _ => true) hkeep

theorem Safe.order_step (h : s.Safe) (hm : Stepped s m s') :
    s'.registry.plugins.map (·.2) = s'.accepted.filter (·.client ∉ s'.stoppedClients) := by
  cases hm with
  | @refuse before after info reason =>
    have haccepted : ((s.answer info none (.rejected reason)).finish before after).accepted = s.accepted :=
      accepted_rejection ..
    rw [haccepted]
    exact h.order
  | @fail before after info e =>
    have haccepted : ((s.answer info none (.rejected (Registry.unreachableReason e))).finish before after).accepted =
        s.accepted := accepted_rejection ..
    rw [haccepted]
    exact h.order
  | @accept before after info client tasks =>
    have haccepted : ∀ registry : Registry,
        (({ s with registry := registry }.answer info (some client) .ok).finish before after).accepted =
          s.accepted ++ [⟨info, client⟩] := fun _ => accepted_answer ..
    rw [haccepted, finish, answer, List.map_append]
    exact h.order_accept (tasks ▸ List.mem_append_cons_self)
  | @reject before after info client reason tasks =>
    have haccepted : (((s.answer info (some client) (.rejected reason)).stopClients [client]).finish before
        after).accepted = s.accepted := accepted_rejection ..
    rw [haccepted]
    exact h.order_reject (tasks ▸ List.mem_append_cons_self)
  | check tasks hlength =>
    have hchecked := h.checked (tasks ▸ List.mem_append_cons_self) hlength
    refine (congrArg _ hchecked.plugins).trans (h.order_filter _ _ fun p hp => ?_)
    -- A plugin is evicted exactly if its client is given up, as no two plugins share one.
    refine decide_eq_decide.mpr (not_congr ?_)
    rw [hchecked.evicted]
    constructor
    · exact fun hevicts => ⟨p, hp, hevicts, rfl⟩
    · rintro ⟨q, hq, hevicts, heq⟩
      exact h.eq_of_client hq hp heq ▸ hevicts
  | drain =>
    have hkeep : ∀ p ∈ s.registry.plugins, false = decide (p.2.client ∉ s.registry.drain.1) := by
      intro p hp
      have hmem : p.2.client ∈ s.registry.drain.1 := List.mem_map.mpr ⟨p, hp, rfl⟩
      simp [hmem]
    have hrest := h.order_filter s.registry.drain.1 (fun _ => false) hkeep
    rw [List.filter_false] at hrest
    exact hrest
  | _ => exact h.order

/-- A step keeps everything safe. -/
theorem Safe.step (h : s.Safe) (hm : Stepped s m s') : Safe s' := by
  refine ⟨h.registry_step hm, h.tasks_step hm, ?_, ?_, h.stopped_step hm, h.rejected_step hm, h.order_step hm⟩
  · rcases clients_step hm with ⟨hperm, -⟩ | ⟨hperm, -⟩
    · exact hperm.nodup_iff.mpr h.clients_nodup
    · refine hperm.nodup_iff.mpr (List.nodup_cons.mpr ⟨fun hmem => ?_, h.clients_nodup⟩)
      exact Nat.lt_irrefl _ (h.clients_lt _ hmem)
  · intro c hc
    rcases clients_step hm with ⟨hperm, heq⟩ | ⟨hperm, heq⟩ <;> rw [heq]
    · exact h.clients_lt c (hperm.mem_iff.mp hc)
    · rcases List.mem_cons.mp (hperm.mem_iff.mp hc) with rfl | hc
      · exact Nat.lt_succ_self _
      · exact Nat.lt_succ_of_lt (h.clients_lt c hc)

end Intendant.RegistrySystem
