import Intendant.Proofs.Registry.Runs

/-! # Plugins that were reached

A client is made when dialing a plugin ends well and at no other time, and clients are numbered as they are made. So the
list of the plugins that were reached says for every client whose it is (`Served`), and every plugin that is registered at
any time was reached by a dial of its own. A registration whose dialing fails registers nothing (`fail_registers_nothing`). -/

namespace Intendant.RegistrySystem

/-- The plugin that a move reaches: the one whose dialing it ends well. -/
def reachedBy (s : RegistrySystem) : RegistryMove → List Plugin.Info
  | .goOn index (some (.dialed none)) =>
    match s.tasks[index]? with
    | some (.dialing info) => [info]
    | _ => []
  | _ => []

/-- The plugins that a run reaches, the earliest one first. -/
def reached (s : RegistrySystem) : List RegistryMove → List Plugin.Info
  | [] => []
  | m :: moves =>
    match s.step? m with
    | some s' => s.reachedBy m ++ s'.reached moves
    | none => []

/-- Clients stand for the plugins that were reached, in their order. -/
structure Served (s : RegistrySystem) (infos : List Plugin.Info) : Prop where
  fresh : s.freshClient = infos.length
  tasks : ∀ info client, .committing info client ∈ s.tasks → infos[client]? = some info
  plugins : ∀ p ∈ s.registry.plugins, infos[p.2.client]? = some p.2.info

variable {s s' : RegistrySystem} {m : RegistryMove} {moves : List RegistryMove} {infos : List Plugin.Info}

theorem Served.initial (retries : Nat) : Served { registry := { retries } } [] where
  fresh := rfl
  tasks _ _ h := nomatch h
  plugins _ h := nomatch h

/-- A move that reaches no plugin. -/
theorem Served.of_unreached (h : s.Served infos) (hnone : s.reachedBy m = []) (hfresh : s'.freshClient = s.freshClient)
    (htasks : ∀ info client, .committing info client ∈ s'.tasks → .committing info client ∈ s.tasks)
    (hplugins : ∀ p ∈ s'.registry.plugins, p ∈ s.registry.plugins ∨ .committing p.2.info p.2.client ∈ s.tasks) :
    s'.Served (infos ++ s.reachedBy m) := by
  rw [hnone, List.append_nil]
  refine ⟨hfresh.trans h.fresh, fun info client ht => h.tasks info client (htasks info client ht), fun p hp => ?_⟩
  rcases hplugins p hp with hp | ht
  · exact h.plugins p hp
  · exact h.tasks p.2.info p.2.client ht

theorem plugins_takeCheckups_subset (r : Registry) (cs : List Checkup) : (r.takeCheckups cs).2.plugins ⊆ r.plugins := by
  intro p hp
  have hplugins := (Registry.foldl_evict { r with failures := (cs.foldl r.count (r.failures, [])).1 }
    (cs.foldl r.count (r.failures, [])).2).1
  rw [Registry.takeCheckups] at hp
  exact List.mem_of_mem_filter (hplugins ▸ hp)

theorem Served.step (h : s.Served infos) (hm : Stepped s m s') : s'.Served (infos ++ s.reachedBy m) := by
  cases hm with
  | @dial before after info tasks =>
    have hreached : s.reachedBy (.goOn before.length (some (.dialed none))) = [info] := by
      simp [reachedBy, getElem?_tasks tasks]
    rw [hreached]
    have hkept : ∀ {client : Nat} {i : Plugin.Info}, infos[client]? = some i → (infos ++ [info])[client]? = some i := by
      intro client i hi
      rw [List.getElem?_append_left (List.getElem?_eq_some_iff.mp hi).1, hi]
    refine ⟨?_, fun i client ht => ?_, fun p hp => hkept (h.plugins p hp)⟩
    · simp [proceed, h.fresh]
    · rcases mem_tasks_proceed tasks ht with ht | heq
      · exact hkept (h.tasks i client ht)
      · cases heq
        simp [h.fresh]
  | @accept before after info client tasks =>
    refine h.of_unreached rfl rfl (fun i c ht => mem_tasks_finish tasks ht) fun p hp => ?_
    rcases List.mem_append.mp hp with hp | hp
    · exact .inl hp
    · cases List.mem_singleton.mp hp
      exact .inr (tasks ▸ List.mem_append_cons_self)
  | register | refresh | stop =>
    refine h.of_unreached rfl rfl (fun i c ht => ?_) fun p hp => .inl hp
    exact (mem_tasks_begin ht).resolve_right (by simp)
  | allow tasks | list tasks =>
    refine h.of_unreached rfl rfl (fun i c ht => ?_) fun p hp => .inl hp
    exact (mem_tasks_proceed tasks ht).resolve_right (by simp)
  | refuse tasks | fail _ tasks | reject _ tasks =>
    exact h.of_unreached rfl rfl (fun i c ht => mem_tasks_finish tasks ht) fun p hp => .inl hp
  | check tasks =>
    exact h.of_unreached rfl rfl (fun i c ht => mem_tasks_finish tasks ht) fun p hp =>
      .inl (plugins_takeCheckups_subset _ _ hp)
  | drain tasks =>
    exact h.of_unreached rfl rfl (fun i c ht => mem_tasks_finish tasks ht) fun p hp => absurd hp List.not_mem_nil

theorem Served.run (h : s.Served infos) (hrun : s.run? moves = some s') : s'.Served (infos ++ s.reached moves) := by
  induction moves generalizing s infos with
  | nil =>
    cases hrun
    rwa [reached, List.append_nil]
  | cons m moves ih =>
    obtain ⟨s₁, hstep, hrest⟩ := Option.bind_eq_some_iff.mp hrun
    have hserved := ih (h.step (stepped_of_step? hstep)) hrest
    rw [List.append_assoc] at hserved
    rwa [reached, hstep]

/-- No two registered plugins have one client. -/
theorem Safe.clients_distinct (h : s.Safe) : (s.registry.plugins.map (·.2.client)).Nodup :=
  h.registry.names_nodup.of_map.map_on fun _ hp _ hq heq => h.eq_of_client hp hq heq

/-- A registration whose dialing fails is answered and gone, and leaves the registry as it was. Whatever plugin is
    registered after any more moves was reached before or after that, each one by a dial of its own. -/
theorem fail_registers_nothing {retries index : Nat} {info : Plugin.Info}
    (hrun : run? { registry := { retries } } moves = some s) (ht : s.tasks[index]? = some (.dialing info)) (e : PluginError) :
    ∃ s', s.step? (.goOn index (some (.dialed (some e)))) = some s' ∧ s'.registry = s.registry ∧
      s'.tasks = s.tasks.eraseIdx index ∧
      s'.registrations = s.registrations ++ [⟨info, none, .rejected (Registry.unreachableReason e)⟩] ∧
      ∀ more s'', s'.run? more = some s'' →
        (∀ p ∈ s''.registry.plugins,
          (reached { registry := { retries } } moves ++ s'.reached more)[p.2.client]? = some p.2.info) ∧
        (s''.registry.plugins.map (·.2.client)).Nodup := by
  obtain ⟨s', hs'⟩ : ∃ s', s' =
      { s.answer info none (.rejected (Registry.unreachableReason e)) with tasks := s.tasks.eraseIdx index } := ⟨_, rfl⟩
  have hstep : s.step? (.goOn index (some (.dialed (some e)))) = some s' := by
    simp only [step?, ht, Option.bind_eq_bind, Option.bind_some, taskStep?]
    exact congrArg some hs'.symm
  have hserved : s.Served (reached { registry := { retries } } moves) := (Served.initial retries).run hrun
  have hserved' : s'.Served (reached { registry := { retries } } moves) := by
    simpa [reachedBy] using hserved.step (stepped_of_step? hstep)
  have hsafe' : s'.Safe := ((Safe.initial retries).run hrun).step (stepped_of_step? hstep)
  refine ⟨s', hstep, hs' ▸ rfl, hs' ▸ rfl, hs' ▸ rfl, fun more s'' hmore => ?_⟩
  exact ⟨(hserved'.run hmore).plugins, (hsafe'.run hmore).clients_distinct⟩

end Intendant.RegistrySystem
