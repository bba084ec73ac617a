import Intendant.Proofs.Registry.Counters
import Intendant.Proofs.Registry.Runs
import Mathlib.Data.List.Induction

/-! # Eviction

A registered plugin has failed fewer checks in a row than the registry allows, its counter is that number, and it goes at
the very move that makes the number too large. Checks of other clients play no part in it, whatever their names. -/

namespace Intendant.RegistrySystem
open Registry (About)

/-- The checkups that a move commits. -/
def committed (s : RegistrySystem) : RegistryMove → List Checkup
  | .goOn index (some (.probed ready)) =>
    match s.tasks[index]? with
    | some (.probing plugins) => checkups plugins ready
    | _ => []
  | _ => []

/-- The outcomes that a move commits on a client. -/
def outcomesOf (s : RegistrySystem) (m : RegistryMove) (client : Nat) : List Bool :=
  ((s.committed m).filter (·.client = client)).map (·.ready)

/-- The outcomes that a run commits on a client, the earliest one first. -/
def outcomes (client : Nat) (s : RegistrySystem) : List RegistryMove → List Bool
  | [] => []
  | m :: moves =>
    match s.step? m with
    | some s' => s.outcomesOf m client ++ outcomes client s' moves
    | none => []

/-- What is known of the plugins when the given outcomes have been committed on each client. -/
structure Watched (s : RegistrySystem) (past : Nat → List Bool) : Prop where
  counter : ∀ p ∈ s.registry.plugins, s.registry.failures.get? p.1 = some (failedInARow (past p.2.client))
  below : ∀ p ∈ s.registry.plugins, failedInARow (past p.2.client) < max 1 s.registry.retries
  listed : ∀ plugins, .probing plugins ∈ s.tasks → ∀ q ∈ plugins, ∃ e ∈ s.accepted, e.info.name = q.1 ∧ e.client = q.2
  unknown : ∀ client, client ∉ s.accepted.map (·.client) → past client = []

variable {s s' : RegistrySystem} {m : RegistryMove} {moves : List RegistryMove} {past : Nat → List Bool}
  {p : String × Registered}

theorem run?_concat (s : RegistrySystem) (moves : List RegistryMove) (m : RegistryMove) :
    s.run? (moves ++ [m]) = (s.run? moves).bind (·.step? m) := by
  induction moves generalizing s with
  | nil => cases h : s.step? m <;> simp [run?, h]
  | cons m' moves ih =>
    simp only [List.cons_append, run?, Option.bind_assoc]
    exact Option.bind_congr fun s₁ _ => ih s₁

theorem outcomes_concat (hrun : s.run? moves = some s') (hstep : (s'.step? m).isSome) (client : Nat) :
    outcomes client s (moves ++ [m]) = outcomes client s moves ++ s'.outcomesOf m client := by
  induction moves generalizing s with
  | nil =>
    cases hrun
    obtain ⟨s₁, hs₁⟩ := Option.isSome_iff_exists.mp hstep
    simp [outcomes, hs₁]
  | cons m' moves ih =>
    obtain ⟨s₁, hs₁, hrest⟩ := Option.bind_eq_some_iff.mp hrun
    simp only [List.cons_append, outcomes, hs₁]
    rw [ih hrest, List.append_assoc]

/-! ### The outcomes of one move -/

theorem committed_check {before after : List RegistryTask} {plugins : List (String × Nat)} {ready : List Bool}
    (tasks : s.tasks = before ++ .probing plugins :: after) :
    s.committed (.goOn before.length (some (.probed ready))) = checkups plugins ready := by
  simp [committed, getElem?_tasks tasks]

/-- A checkup has the name of a plugin if it has its client. -/
theorem Watched.about_iff (h : Watched s past) (hsafe : s.Safe) {plugins : List (String × Nat)} {ready : List Bool}
    (ht : .probing plugins ∈ s.tasks) (hp : p ∈ s.registry.plugins) {c : Checkup} (hc : c ∈ checkups plugins ready) :
    About p c ↔ c.client = p.2.client := by
  refine ⟨And.right, fun hclient => ⟨?_, hclient⟩⟩
  obtain ⟨q, hq, rfl⟩ := List.mem_map.mp hc
  obtain ⟨e, he, hname, heq⟩ := h.listed plugins ht q.1 (List.of_mem_zip hq).1
  have haccepted : p.2 ∈ s.accepted := by
    have hmem : p.2 ∈ s.accepted.filter (·.client ∉ s.stoppedClients) := hsafe.order ▸ List.mem_map_of_mem hp
    exact List.mem_of_mem_filter hmem
  have hsame : e = p.2 := List.inj_on_of_nodup_map hsafe.accepted_nodup he haccepted (heq.trans hclient)
  rw [(hsafe.registry.entry p hp).1, ← hsame]
  exact hname.symm

/-- The end of a health round commits one outcome on a registered plugin, or none. -/
theorem Watched.outcomesOf_cases (h : Watched s past) (hsafe : s.Safe) {before after : List RegistryTask}
    {plugins : List (String × Nat)} {ready : List Bool} (tasks : s.tasks = before ++ .probing plugins :: after)
    (hlength : plugins.length = ready.length) (hp : p ∈ s.registry.plugins) :
    (s.outcomesOf (.goOn before.length (some (.probed ready))) p.2.client = [] ∧
      ∀ c ∈ checkups plugins ready, ¬About p c) ∨
    ∃ c ∈ checkups plugins ready, About p c ∧
      s.outcomesOf (.goOn before.length (some (.probed ready))) p.2.client = [c.ready] := by
  have ht : .probing plugins ∈ s.tasks := tasks ▸ List.mem_append_cons_self
  have hnames : ((checkups plugins ready).map (·.name)).Nodup := by
    rw [map_name_checkups hlength]
    exact hsafe.tasks _ ht
  have hfilter : (checkups plugins ready).filter (·.client = p.2.client) =
      (checkups plugins ready).filter fun c => About p c :=
    List.filter_congr fun c hc => decide_eq_decide.mpr (h.about_iff hsafe ht hp hc).symm
  rw [outcomesOf, committed_check tasks, hfilter]
  -- The checkups have different names, so at most one of them is about the plugin.
  by_cases habout : ∃ c ∈ checkups plugins ready, About p c
  · obtain ⟨c, hc, habout⟩ := habout
    obtain ⟨first, last, hsplit⟩ := List.append_of_mem hc
    rw [hsplit, List.map_append, List.map_cons, List.nodup_middle, List.nodup_cons, List.mem_append, not_or] at hnames
    obtain ⟨⟨hfirst, hlast⟩, -⟩ := hnames
    have hnone : ∀ cs : List Checkup, c.name ∉ cs.map (·.name) →
        cs.filter (fun d => About p d) = [] := by
      intro cs hcs
      refine List.filter_eq_nil_iff.mpr fun d hd hd' => hcs (List.mem_map.mpr ⟨d, hd, ?_⟩)
      exact (of_decide_eq_true hd').1.trans habout.1.symm
    refine .inr ⟨c, hc, habout, ?_⟩
    rw [hsplit, List.filter_append, List.filter_cons, if_pos (decide_eq_true habout), hnone first hfirst, hnone last hlast]
    rfl
  · refine .inl ⟨?_, fun c hc hc' => habout ⟨c, hc, hc'⟩⟩
    rw [List.filter_eq_nil_iff.mpr fun c hc hc' => habout ⟨c, hc, of_decide_eq_true hc'⟩]
    rfl

/-- Nothing is committed on a client that was never accepted. -/
theorem Watched.outcomesOf_eq_nil (h : Watched s past) {before after : List RegistryTask} {plugins : List (String × Nat)}
    {ready : List Bool} (tasks : s.tasks = before ++ .probing plugins :: after) {client : Nat}
    (hclient : client ∉ s.accepted.map (·.client)) :
    s.outcomesOf (.goOn before.length (some (.probed ready))) client = [] := by
  rw [outcomesOf, committed_check tasks, List.map_eq_nil_iff, List.filter_eq_nil_iff]
  intro c hc heq
  obtain ⟨q, hq, rfl⟩ := List.mem_map.mp hc
  obtain ⟨e, he, -, hsame⟩ := h.listed plugins (tasks ▸ List.mem_append_cons_self) q.1 (List.of_mem_zip hq).1
  exact hclient (List.mem_map.mpr ⟨e, he, hsame.trans (of_decide_eq_true heq)⟩)

/-! ### One step -/

/-- A plugin after the end of a health round. -/
theorem Watched.check (h : Watched s past) (hsafe : s.Safe) {before after : List RegistryTask}
    {plugins : List (String × Nat)} {ready : List Bool} (tasks : s.tasks = before ++ .probing plugins :: after)
    (hlength : plugins.length = ready.length) (hp : p ∈ s.registry.plugins) {checks : List Bool}
    (hchecks : checks = past p.2.client ++ s.outcomesOf (.goOn before.length (some (.probed ready))) p.2.client) :
    (p ∈ (s.registry.takeCheckups (checkups plugins ready)).2.plugins ↔ failedInARow checks < max 1 s.registry.retries) ∧
    (p ∈ (s.registry.takeCheckups (checkups plugins ready)).2.plugins →
      (s.registry.takeCheckups (checkups plugins ready)).2.failures.get? p.1 = some (failedInARow checks)) := by
  have hnames : ((checkups plugins ready).map (·.name)).Nodup := by
    rw [map_name_checkups hlength]
    exact hsafe.tasks _ (tasks ▸ List.mem_append_cons_self)
  rcases h.outcomesOf_cases hsafe tasks hlength hp with ⟨hnone, hunchecked⟩ | ⟨c, hc, habout, hone⟩
  · obtain ⟨hkept, hcounter⟩ := hsafe.registry.takeCheckups_of_unchecked hnames hp hunchecked
    rw [hnone, List.append_nil] at hchecks
    rw [hchecks]
    exact ⟨iff_of_true hkept (h.below p hp), fun _ => hcounter.trans (h.counter p hp)⟩
  · rw [hone] at hchecks
    rw [hchecks]
    exact hsafe.registry.takeCheckups_of_checked hnames hp hc habout (h.counter p hp)

theorem retries_step (hm : Stepped s m s') : s'.registry.retries = s.registry.retries := by
  cases hm with
  | @check _ _ plugins ready =>
    obtain ⟨-, -, -, hretries⟩ := Registry.foldl_evict
      { s.registry with failures := ((checkups plugins ready).foldl s.registry.count (s.registry.failures, [])).1 }
      ((checkups plugins ready).foldl s.registry.count (s.registry.failures, [])).2
    exact hretries
  | _ => rfl

theorem accepted_step (hm : Stepped s m s') : s.accepted ⊆ s'.accepted := by
  cases hm with
  | refuse | fail | reject | accept =>
    intro e he
    simp only [finish, answer, stopClients, accepted, List.filterMap_append] at he ⊢
    exact List.mem_append_left _ he
  | _ => exact List.Subset.refl _

/-- Where nothing is committed, the plugins that stay keep their counters. -/
theorem Watched.of_same (h : Watched s past) (hm : Stepped s m s') (hnone : s.committed m = [])
    (hplugins : s'.registry.plugins ⊆ s.registry.plugins)
    (hcounters : ∀ p ∈ s'.registry.plugins, s'.registry.failures.get? p.1 = s.registry.failures.get? p.1)
    (hlisted : ∀ plugins, .probing plugins ∈ s'.tasks → .probing plugins ∈ s.tasks ∨ plugins = s.registry.snapshot)
    (hsafe : s.Safe) : Watched s' fun client => past client ++ s.outcomesOf m client := by
  have hpast : ∀ client, past client ++ s.outcomesOf m client = past client := by simp [outcomesOf, hnone]
  simp only [hpast]
  refine ⟨fun p hp => ?_, fun p hp => ?_, fun plugins ht q hq => ?_, fun client hc => ?_⟩
  · exact (hcounters p hp).trans (h.counter p (hplugins hp))
  · exact retries_step hm ▸ h.below p (hplugins hp)
  · rcases hlisted plugins ht with ht | rfl
    · obtain ⟨e, he, hq⟩ := h.listed plugins ht q hq
      exact ⟨e, accepted_step hm he, hq⟩
    · obtain ⟨p, hp, rfl⟩ := List.mem_map.mp hq
      have hmem : p.2 ∈ s.accepted.filter (·.client ∉ s.stoppedClients) := hsafe.order ▸ List.mem_map_of_mem hp
      exact ⟨p.2, accepted_step hm (List.mem_of_mem_filter hmem), (hsafe.registry.entry p hp).1.symm, rfl⟩
  · exact h.unknown client fun hc' => hc (List.map_subset _ (accepted_step hm) hc')

theorem snapshot_or_mem_of_proceed {before after : List RegistryTask} {old new : RegistryTask}
    (tasks : s.tasks = before ++ old :: after) (hnew : ∀ plugins, new = .probing plugins → plugins = s.registry.snapshot) :
    ∀ plugins, .probing plugins ∈ before ++ new :: after → .probing plugins ∈ s.tasks ∨ plugins = s.registry.snapshot :=
  fun plugins ht => (mem_tasks_proceed tasks ht).imp id fun heq => hnew plugins heq.symm

theorem Watched.accept (h : Watched s past) (hsafe : s.Safe) {before after : List RegistryTask} {info : Plugin.Info}
    {client : Nat} (tasks : s.tasks = before ++ .committing info client :: after) (free : info.name ∉ s.registry.names) :
    Watched (({ s with registry := { s.registry with
        plugins := s.registry.plugins ++ [(info.name, (⟨info, client⟩ : Registered))]
        failures := s.registry.failures.insert info.name 0 } }.answer info (some client) .ok).finish before after) past := by
  have haccepted : ∀ registry : Registry, (({ s with registry := registry }.answer info (some client) .ok).finish before
      after).accepted = s.accepted ++ [⟨info, client⟩] := fun _ => accepted_answer ..
  -- The client is new, so nothing was committed on it.
  have hnew : past client = [] := by
    refine h.unknown client fun hc => ?_
    obtain ⟨e, he, rfl⟩ := List.mem_map.mp hc
    exact hsafe.client_new (tasks ▸ List.mem_append_cons_self) (mem_clients_of_accepted he)
  refine ⟨fun p hp => ?_, fun p hp => ?_, fun plugins ht q hq => ?_, fun other hother => ?_⟩
  · rcases List.mem_append.mp hp with hp | hp
    · have hne : p.1 ≠ info.name := fun heq => free (List.mem_map.mpr ⟨p, hp, heq⟩)
      exact (KeyMap.get?_insert ..).trans ((if_neg hne).trans (h.counter p hp))
    · cases List.mem_singleton.mp hp
      rw [hnew]
      exact (KeyMap.get?_insert ..).trans (if_pos rfl)
  · rcases List.mem_append.mp hp with hp | hp
    · exact h.below p hp
    · cases List.mem_singleton.mp hp
      rw [hnew]
      exact lt_max_of_lt_left Nat.one_pos
  · obtain ⟨e, he, hq⟩ := h.listed plugins (mem_tasks_finish tasks ht) q hq
    exact ⟨e, haccepted _ ▸ List.mem_append_left _ he, hq⟩
  · refine h.unknown other fun hmem => hother ?_
    rw [haccepted, List.map_append]
    exact List.mem_append_left _ hmem

theorem Watched.step (h : Watched s past) (hsafe : s.Safe) (hm : Stepped s m s') :
    Watched s' fun client => past client ++ s.outcomesOf m client := by
  cases hm with
  | register | refresh | stop =>
    exact h.of_same (by constructor) rfl (List.Subset.refl _) (fun _ _ => rfl)
      (fun plugins ht => .inl ((mem_tasks_begin ht).resolve_right nofun)) hsafe
  | allow tasks hadmitted =>
    exact h.of_same (.allow tasks hadmitted) rfl (List.Subset.refl _) (fun _ _ => rfl)
      (snapshot_or_mem_of_proceed tasks nofun) hsafe
  | dial tasks =>
    exact h.of_same (.dial tasks) rfl (List.Subset.refl _) (fun _ _ => rfl) (snapshot_or_mem_of_proceed tasks nofun) hsafe
  | list tasks =>
    refine h.of_same (.list tasks) rfl (List.Subset.refl _) (fun _ _ => rfl) (snapshot_or_mem_of_proceed tasks ?_) hsafe
    intro plugins heq
    cases heq
    rfl
  | refuse tasks hrefused =>
    exact h.of_same (.refuse tasks hrefused) rfl (List.Subset.refl _) (fun _ _ => rfl)
      (fun plugins ht => .inl (mem_tasks_finish tasks ht)) hsafe
  | fail e tasks =>
    exact h.of_same (.fail e tasks) rfl (List.Subset.refl _) (fun _ _ => rfl)
      (fun plugins ht => .inl (mem_tasks_finish tasks ht)) hsafe
  | reject reason tasks =>
    exact h.of_same (.reject reason tasks) rfl (List.Subset.refl _) (fun _ _ => rfl)
      (fun plugins ht => .inl (mem_tasks_finish tasks ht)) hsafe
  | drain tasks =>
    exact h.of_same (.drain tasks) rfl nofun nofun (fun plugins ht => .inl (mem_tasks_finish tasks ht)) hsafe
  | accept tasks running free =>
    simpa [outcomesOf, committed] using h.accept hsafe tasks free
  | @check _ _ plugins ready tasks hlength =>
    have hchecked := hsafe.checked (tasks ▸ List.mem_append_cons_self) hlength
    have hkept : ∀ p ∈ (s.registry.takeCheckups (checkups plugins ready)).2.plugins, p ∈ s.registry.plugins := by
      intro p hp
      rw [hchecked.plugins] at hp
      exact List.mem_of_mem_filter hp
    refine ⟨fun p hp => ?_, fun p hp => ?_, fun plugins ht q hq => ?_, fun client hc => ?_⟩
    · exact (h.check hsafe tasks hlength (hkept p hp) rfl).2 hp
    · rw [retries_step (.check tasks hlength)]
      exact (h.check hsafe tasks hlength (hkept p hp) rfl).1.mp hp
    · exact h.listed plugins (mem_tasks_finish tasks ht) q hq
    · have haccepted : client ∉ s.accepted.map (·.client) := hc
      rw [h.unknown client haccepted, h.outcomesOf_eq_nil tasks haccepted]
      rfl

/-- A plugin stays unless it is drained or has failed too many checks in a row. -/
theorem Watched.stays_iff (h : Watched s past) (hsafe : s.Safe) (hm : Stepped s m s') (hp : p ∈ s.registry.plugins) :
    p ∈ s'.registry.plugins ↔
      ¬Draining s m ∧ failedInARow (past p.2.client ++ s.outcomesOf m p.2.client) < max 1 s.registry.retries := by
  have hbelow : failedInARow (past p.2.client ++ []) < max 1 s.registry.retries := by
    rw [List.append_nil]
    exact h.below p hp
  have hkeeps : ∀ {before after : List RegistryTask} {signal : Option RegistrySignal} {t : RegistryTask},
      s.tasks = before ++ t :: after → t ≠ .draining → ¬Draining s (.goOn before.length signal) := by
    rintro before after signal t tasks ht ⟨_, hm, hdraining⟩
    cases hm
    exact ht (Option.some.inj ((getElem?_tasks tasks).symm.trans hdraining))
  cases hm with
  | register | refresh | stop =>
    refine iff_of_true hp ⟨?_, hbelow⟩
    rintro ⟨_, hm, -⟩
    cases hm
  | allow tasks | dial tasks | list tasks | refuse tasks | fail _ tasks | reject _ tasks =>
    exact iff_of_true hp ⟨hkeeps tasks nofun, hbelow⟩
  | accept tasks => exact iff_of_true (List.mem_append_left _ hp) ⟨hkeeps tasks nofun, hbelow⟩
  | check tasks hlength =>
    rw [and_iff_right (hkeeps tasks nofun)]
    exact (h.check hsafe tasks hlength hp rfl).1
  | drain tasks => exact iff_of_false nofun fun hstays => hstays.1 ⟨_, rfl, getElem?_tasks tasks⟩

/-- A move commits at most one outcome on a registered plugin. -/
theorem Watched.failedInARow_le (h : Watched s past) (hsafe : s.Safe) (hm : Stepped s m s') (hp : p ∈ s.registry.plugins) :
    failedInARow (past p.2.client ++ s.outcomesOf m p.2.client) ≤ max 1 s.registry.retries := by
  have hbelow := h.below p hp
  have hnothing : failedInARow (past p.2.client ++ []) ≤ max 1 s.registry.retries := by
    rw [List.append_nil]
    exact hbelow.le
  cases hm with
  | check tasks hlength =>
    rcases h.outcomesOf_cases hsafe tasks hlength hp with ⟨hnone, -⟩ | ⟨c, -, -, hone⟩
    · rw [hnone]
      exact hnothing
    · rw [hone, failedInARow_concat]
      split
      · exact Nat.zero_le _
      · exact hbelow
  | _ => exact hnothing

/-! ### Runs -/

theorem run_watched (retries : Nat) (moves : List RegistryMove)
    (h : run? { registry := { retries } } moves = some s) :
    s.Safe ∧ s.registry.retries = retries ∧ Watched s (outcomes · { registry := { retries } } moves) := by
  induction moves using List.reverseRecOn generalizing s with
  | nil =>
    cases h
    exact ⟨.initial retries, rfl, nofun, nofun, nofun, fun _ _ => rfl⟩
  | append_singleton moves m ih =>
    rw [run?_concat] at h
    obtain ⟨s₀, hrun, hstep⟩ := Option.bind_eq_some_iff.mp h
    obtain ⟨hsafe, hretries, hwatched⟩ := ih hrun
    have hm := stepped_of_step? hstep
    refine ⟨hsafe.step hm, (retries_step hm).trans hretries, ?_⟩
    have hpast : (outcomes · { registry := { retries } } (moves ++ [m])) =
        fun client => outcomes client { registry := { retries } } moves ++ s₀.outcomesOf m client :=
      funext fun client => outcomes_concat hrun (Option.isSome_of_eq_some hstep) client
    rw [hpast]
    exact hwatched.step hsafe hm

/-- After any moves of any number of registrations, health rounds and stops, a registered plugin has a counter of the failed
    checks that were committed on its client since the last passed one, or since its acceptance, before which there were
    none; and that number is below the threshold. A further move that drains nothing removes the plugin exactly if it makes
    the number reach the threshold, and a move that commits nothing on its client changes neither the plugin nor its
    counter. -/
theorem run_evicts_exactly (retries : Nat) (moves : List RegistryMove)
    (h : run? { registry := { retries } } moves = some s) :
    (∀ p ∈ s.registry.plugins,
      s.registry.failures.get? p.1 = some (failedInARow (outcomes p.2.client { registry := { retries } } moves)) ∧
      failedInARow (outcomes p.2.client { registry := { retries } } moves) < max 1 retries) ∧
    (∀ client, client ∉ s.accepted.map (·.client) → outcomes client { registry := { retries } } moves = []) ∧
    ∀ m s', s.step? m = some s' → ¬Draining s m → ∀ p ∈ s.registry.plugins,
      (p ∉ s'.registry.plugins ↔
        failedInARow (outcomes p.2.client { registry := { retries } } (moves ++ [m])) = max 1 retries) ∧
      (s.outcomesOf m p.2.client = [] →
        p ∈ s'.registry.plugins ∧ s'.registry.failures.get? p.1 = s.registry.failures.get? p.1) := by
  obtain ⟨hsafe, rfl, hwatched⟩ := run_watched retries moves h
  refine ⟨fun p hp => ⟨hwatched.counter p hp, hwatched.below p hp⟩, hwatched.unknown, ?_⟩
  intro m s' hstep hdrains p hp
  have hm := stepped_of_step? hstep
  have hstays := hwatched.stays_iff hsafe hm hp
  have hwatched' := hwatched.step hsafe hm
  rw [and_iff_right hdrains] at hstays
  rw [outcomes_concat h (Option.isSome_of_eq_some hstep)]
  -- The count goes up by one at most, so it is at the threshold when it is not below it any more.
  refine ⟨?_, fun hnone => ?_⟩
  · rw [hstays, Nat.not_lt]
    exact ⟨fun hreached => (hwatched.failedInARow_le hsafe hm hp).antisymm hreached, fun heq => heq.ge⟩
  · rw [hnone, List.append_nil] at hstays
    have hp' : p ∈ s'.registry.plugins := hstays.mpr (hwatched.below p hp)
    have hcounter := hwatched'.counter p hp'
    rw [hnone, List.append_nil, ← hwatched.counter p hp] at hcounter
    exact ⟨hp', hcounter⟩

/-- Three health rounds that all list one plugin. Two of them find it not ready, it is evicted and registers again, and the
    outcome of the third one is yet to come. -/
def comeback : List RegistryMove :=
  let info : Plugin.Info := { name := "scaler", endpoint := "127.0.0.1:4000" }
  let register : List RegistryMove := [.register info, .goOn 0 none, .goOn 0 (some (.dialed none)), .goOn 0 none]
  register ++ [.refresh, .refresh, .refresh, .goOn 0 none, .goOn 1 none, .goOn 2 none, .goOn 0 (some (.probed [false])),
    .goOn 0 (some (.probed [false]))] ++
    [.register info, .goOn 1 none, .goOn 1 (some (.dialed none)), .goOn 1 none]

theorem run_evicts_exactly_comeback : ∃ s, run? { registry := { retries := 2 } } comeback = some s ∧
    outcomes 0 { registry := { retries := 2 } } comeback = [false, false] ∧ s.registry.snapshot = [("scaler", 1)] ∧
    ∀ s', s.step? (.goOn 0 (some (.probed [false]))) = some s' → ∀ p ∈ s.registry.plugins,
      p ∈ s'.registry.plugins ∧ s'.registry.failures.get? p.1 = some 0 := by
  have hview : (run? { registry := { retries := 2 } } comeback).map (fun s => s.registry.snapshot) =
      some [("scaler", 1)] := by decide
  have htasks : (run? { registry := { retries := 2 } } comeback).map (·.tasks) = some [.probing [("scaler", 0)]] := rfl
  obtain ⟨s, hs, hsnapshot⟩ := Option.map_eq_some_iff.mp hview
  have hlast : s.tasks = [.probing [("scaler", 0)]] := by simpa [hs] using htasks
  have hnew : outcomes 1 { registry := { retries := 2 } } comeback = [] := by decide
  obtain ⟨hcounters, -, hmoves⟩ := run_evicts_exactly 2 comeback hs
  refine ⟨s, hs, by decide, hsnapshot, fun s' hstep p hp => ?_⟩
  have hclient : (p.1, p.2.client) ∈ s.registry.snapshot := List.mem_map.mpr ⟨p, hp, rfl⟩
  rw [hsnapshot] at hclient
  obtain ⟨-, hclient⟩ := Prod.mk.inj (List.mem_singleton.mp hclient)
  have hdrains : ¬Draining s (.goOn 0 (some (.probed [false]))) := by
    rintro ⟨_, hm, -⟩
    cases hm
  have hnone : s.outcomesOf (.goOn 0 (some (.probed [false]))) p.2.client = [] := by
    simp [outcomesOf, committed, hlast, checkups, hclient]
  obtain ⟨hkept, hcounter⟩ := (hmoves _ s' hstep hdrains p hp).2 hnone
  have hzero := (hcounters p hp).1
  rw [hclient, hnew] at hzero
  exact ⟨hkept, hcounter.trans hzero⟩

end Intendant.RegistrySystem
