import Mathlib.Data.List.Nodup
import Mathlib.Order.MinMax
import Mathlib.Order.Nat
import Intendant.Registry.Basic

/-! # Registries between two locks

What a registry does while it is locked keeps it sound: its names are distinct, exactly the registered names are
counted, and every plugin is admissible and stored under its own name. A health round evicts exactly the plugins that
were found not ready once too often (`mem_takeCheckups`). -/

namespace Intendant

/-- What a plugin must say of itself to be accepted. -/
def Plugin.Info.Admissible (info : Plugin.Info) : Prop :=
  info.name ≠ "" ∧ info.endpoint ≠ "" ∧ info.versions = Plugin.version

namespace Registry

/-- The names under which plugins are registered, the oldest first. -/
def names (r : Registry) : List String := r.plugins.map (·.1)

/-- Each name is registered once, with a count of failures, and by a plugin of that name that is admissible. -/
structure Sound (r : Registry) : Prop where
  names_nodup : r.names.Nodup
  counted : ∀ name, (r.failures.get? name).isSome = true ↔ name ∈ r.names
  entry : ∀ p ∈ r.plugins, p.1 = p.2.info.name ∧ p.2.info.Admissible

variable {r : Registry} {name : String} {p : Registered} {info : Plugin.Info} {client : Nat} {c : Checkup}
  {cs : List Checkup}

theorem mem_of_find? (h : r.find? name = some p) : (name, p) ∈ r.plugins := by
  obtain ⟨before, after, heq, -⟩ := List.lookup_eq_some_iff.mp h
  rw [heq]
  exact List.mem_append_right _ List.mem_cons_self

theorem find?_isSome : (r.find? name).isSome = true ↔ name ∈ r.names := by
  rw [← not_iff_not, Bool.not_eq_true, Option.isSome_eq_false_iff, Option.isNone_iff_eq_none, find?,
    List.lookup_eq_none_iff]
  simp only [names, List.mem_map, not_exists, not_and, bne_iff_ne]
  exact ⟨fun h p hp heq => h p hp heq.symm, fun h p hp heq => h p hp heq.symm⟩

theorem contains_eq_false : r.contains name = false ↔ name ∉ r.names := by
  rw [← Bool.not_eq_true, contains, find?_isSome]

theorem Sound.initial (retries : Nat) : Sound { retries } where
  names_nodup := .nil
  counted _ := by simp [names]
  entry _ h := nomatch h

/-- Two entries of one name are the same. -/
theorem Sound.eq_of_name (h : r.Sound) {p q : String × Registered} (hp : p ∈ r.plugins) (hq : q ∈ r.plugins)
    (heq : p.1 = q.1) : p = q := List.inj_on_of_nodup_map h.names_nodup hp hq heq

theorem Sound.find?_iff (h : r.Sound) : r.find? name = some p ↔ (name, p) ∈ r.plugins := by
  refine ⟨mem_of_find?, fun hp => ?_⟩
  obtain ⟨q, hq⟩ := Option.isSome_iff_exists.mp (find?_isSome.mpr (List.mem_map_of_mem (f := (·.1)) hp))
  have heq := h.eq_of_name hp (mem_of_find? hq) rfl
  rw [hq, (Prod.mk.inj heq).2]

/-- Nothing is counted where nothing is registered. -/
theorem Sound.failures_eq_empty (h : r.Sound) (hempty : r.plugins = []) : r.failures = .empty := by
  refine KeyMap.ext_get? fun name => ?_
  rw [KeyMap.get?_empty, ← Option.isNone_iff_eq_none, ← Option.isSome_eq_false_iff, ← Bool.not_eq_true, h.counted]
  simp [names, hempty]

/-! ### Accepting a plugin -/

theorem commit_cases (r : Registry) (info : Plugin.Info) (client : Nat) :
    (∃ reason, r.commit info client = (.rejected reason, r)) ∨
    r.stopped = false ∧ info.name ∉ r.names ∧ r.commit info client = (.ok, { r with
      plugins := r.plugins ++ [(info.name, ⟨info, client⟩)], failures := r.failures.insert info.name 0 }) := by
  unfold commit
  split
  · exact .inl ⟨_, rfl⟩
  · rename_i hfree
    split
    · exact .inl ⟨_, rfl⟩
    · rename_i hrunning
      exact .inr ⟨Bool.eq_false_iff.mpr hrunning, contains_eq_false.mp (Bool.eq_false_iff.mpr hfree), rfl⟩

/-- Accepting an admissible plugin of a new name keeps a registry sound. -/
theorem Sound.accept (h : r.Sound) (hfree : info.name ∉ r.names) (hinfo : info.Admissible) (client : Nat) :
    Sound { r with
      plugins := r.plugins ++ [(info.name, ⟨info, client⟩)], failures := r.failures.insert info.name 0 } := by
  refine ⟨?_, fun name => ?_, fun p hp => ?_⟩
  · have hnodup : ([info.name] ++ r.names).Nodup := List.nodup_cons.mpr ⟨hfree, h.names_nodup⟩
    simpa [names] using List.nodup_append_comm.mp hnodup
  · have hcounted := h.counted name
    by_cases heq : name = info.name
    · simp [names, heq]
    · simpa [names, heq] using hcounted
  · rcases List.mem_append.mp hp with hp | hp
    · exact h.entry p hp
    · cases List.mem_singleton.mp hp
      exact ⟨rfl, hinfo⟩

theorem admissible_of_refusal? (h : r.refusal? info = none) : info.Admissible := by
  unfold refusal? at h
  split at h
  · cases h
  · split at h
    · cases h
    · rename_i hempty
      split at h
      · cases h
      · rename_i hversion
        exact ⟨fun h => hempty (.inl h), fun h => hempty (.inr h), not_not.mp hversion⟩

/-! ### Health rounds -/

/-- A checkup about a registered plugin that makes its failures in a row too many. -/
def Fails (r : Registry) (c : Checkup) : Prop :=
  r.concerns c = true ∧ c.ready = false ∧ r.retries ≤ (r.failures.get? c.name).getD 0 + 1

/-- A plugin whose checkup fails. -/
def Evicts (r : Registry) (cs : List Checkup) (p : String × Registered) : Prop := ∃ c ∈ cs, r.Fails c ∧ c.name = p.1

instance : Decidable (r.Fails c) := inferInstanceAs (Decidable (_ ∧ _ ∧ _))

instance (p : String × Registered) : Decidable (r.Evicts cs p) := inferInstanceAs (Decidable (∃ c ∈ cs, _ ∧ _))

theorem mem_names_of_concerns (h : r.concerns c = true) : c.name ∈ r.names := by
  unfold concerns at h
  split at h
  · rename_i p hp
    exact List.mem_map_of_mem (f := (·.1)) (mem_of_find? hp)
  · cases h

theorem count_cases (r : Registry) (acc : KeyMap Nat × List String) (c : Checkup) :
    (r.concerns c = false ∧ r.count acc c = acc) ∨
    (r.concerns c = true ∧ c.ready = true ∧ r.count acc c = (acc.1.insert c.name 0, acc.2)) ∨
    (r.concerns c = true ∧ c.ready = false ∧ r.count acc c =
      (acc.1.insert c.name ((acc.1.get? c.name).getD 0 + 1),
        if r.retries ≤ (acc.1.get? c.name).getD 0 + 1 then acc.2 ++ [c.name] else acc.2)) := by
  unfold count
  by_cases hconcerns : r.concerns c = true <;> by_cases hready : c.ready = true <;> simp [hconcerns, hready]

/-- Counting a checkup counts no other name, and the name has failed if the checkup fails. -/
theorem count_spec {acc : KeyMap Nat × List String}
    (hkeys : ∀ name, (acc.1.get? name).isSome = true ↔ name ∈ r.names)
    (hfresh : acc.1.get? c.name = r.failures.get? c.name) :
    (∀ name, ((r.count acc c).1.get? name).isSome = true ↔ name ∈ r.names) ∧
    (∀ name, name ≠ c.name → (r.count acc c).1.get? name = acc.1.get? name) ∧
    ∀ name, name ∈ (r.count acc c).2 ↔ name ∈ acc.2 ∨ r.Fails c ∧ c.name = name := by
  have hinsert : r.concerns c = true → ∀ n name,
      ((acc.1.insert c.name n).get? name).isSome = true ↔ name ∈ r.names := by
    intro hconcerns n name
    rw [KeyMap.get?_insert]
    split
    · rename_i heq
      simpa [heq] using mem_names_of_concerns hconcerns
    · exact hkeys name
  rcases count_cases r acc c with ⟨hconcerns, heq⟩ | ⟨hconcerns, hready, heq⟩ | ⟨hconcerns, hready, heq⟩ <;> rw [heq]
  · exact ⟨hkeys, fun _ _ => rfl, by simp [Fails, hconcerns]⟩
  · exact ⟨hinsert hconcerns 0, fun name hne => by simp [hne], by simp [Fails, hready]⟩
  · refine ⟨hinsert hconcerns _, fun name hne => by simp [hne], fun name => ?_⟩
    rw [hfresh]
    by_cases hmany : r.retries ≤ (r.failures.get? c.name).getD 0 + 1
    · simp [hconcerns, hready, Fails, hmany, eq_comm]
    · simp [Fails, hmany]

/-- Counting checkups about different names: still exactly the registered names are counted, and the names that have
    failed are those of failing checkups. -/
theorem count_foldl (hcs : (cs.map (·.name)).Nodup) (acc : KeyMap Nat × List String)
    (hkeys : ∀ name, (acc.1.get? name).isSome = true ↔ name ∈ r.names)
    (hfresh : ∀ c ∈ cs, acc.1.get? c.name = r.failures.get? c.name) :
    (∀ name, ((cs.foldl r.count acc).1.get? name).isSome = true ↔ name ∈ r.names) ∧
    ∀ name, name ∈ (cs.foldl r.count acc).2 ↔ name ∈ acc.2 ∨ ∃ c ∈ cs, r.Fails c ∧ c.name = name := by
  induction cs generalizing acc with
  | nil => simpa using hkeys
  | cons c cs ih =>
    obtain ⟨hc, hcs⟩ := List.nodup_cons.mp hcs
    obtain ⟨hkeys', hother, hfailed⟩ := count_spec hkeys (hfresh c List.mem_cons_self)
    have hfresh' : ∀ d ∈ cs, (r.count acc c).1.get? d.name = r.failures.get? d.name := by
      intro d hd
      have hne : d.name ≠ c.name := fun heq => hc (List.mem_map.mpr ⟨d, hd, heq⟩)
      rw [hother _ hne, hfresh d (List.mem_cons_of_mem _ hd)]
    obtain ⟨hkeys'', hfailed'⟩ := ih hcs _ hkeys' hfresh'
    refine ⟨hkeys'', fun name => ?_⟩
    rw [List.foldl_cons, hfailed', hfailed, or_assoc]
    simp only [List.mem_cons, exists_eq_or_imp]

theorem foldl_evict (r : Registry) (failed : List String) :
    (failed.foldl evict r).plugins = r.plugins.filter (·.1 ∉ failed) ∧
    (∀ name, (failed.foldl evict r).failures.get? name = if name ∈ failed then none else r.failures.get? name) ∧
    (failed.foldl evict r).stopped = r.stopped ∧ (failed.foldl evict r).retries = r.retries := by
  induction failed generalizing r with
  | nil => simp
  | cons name failed ih =>
    obtain ⟨hplugins, hfailures, hstopped, hretries⟩ := ih (r.evict name)
    refine ⟨?_, fun other => ?_, hstopped, hretries⟩
    · rw [List.foldl_cons, hplugins, evict, List.filter_filter]
      refine List.filter_congr fun p _ => ?_
      simp [Bool.and_comm]
    · rw [List.foldl_cons, hfailures, evict, KeyMap.get?_erase]
      by_cases heq : other = name <;> simp [heq]

/-- What a health round makes of a registry, and the clients that it gives up. -/
structure Checked (r : Registry) (cs : List Checkup) (evicted : List Nat) (r' : Registry) : Prop where
  sound : r'.Sound
  stopped : r'.stopped = r.stopped
  plugins : r'.plugins = r.plugins.filter (¬r.Evicts cs ·)
  evicted : ∀ client, client ∈ evicted ↔ ∃ p ∈ r.plugins, r.Evicts cs p ∧ p.2.client = client

/-- A health round evicts exactly the plugins whose checkup fails. -/
theorem Sound.takeCheckups (h : r.Sound) (hcs : (cs.map (·.name)).Nodup) :
    Checked r cs (r.takeCheckups cs).1 (r.takeCheckups cs).2 := by
  obtain ⟨hkeys, hfailed⟩ := count_foldl hcs (r.failures, []) h.counted fun _ _ => rfl
  set out := cs.foldl r.count (r.failures, []) with hout
  obtain ⟨hplugins, hfailures, hstopped, -⟩ := foldl_evict { r with failures := out.1 } out.2
  have hcheckups : r.takeCheckups cs =
      (out.2.filterMap fun name => (r.find? name).map (·.client), out.2.foldl evict { r with failures := out.1 }) := rfl
  rw [hcheckups]
  set r' := out.2.foldl evict { r with failures := out.1 } with hr'
  -- The names that have failed are those of the plugins to be evicted.
  have hevicts : ∀ p : String × Registered, p.1 ∈ out.2 ↔ r.Evicts cs p := fun p =>
    (hfailed p.1).trans (by simp [Evicts])
  have hnames : ∀ name, name ∈ r'.names ↔ name ∈ r.names ∧ name ∉ out.2 := by
    intro name
    simp only [names, hplugins, List.mem_map, List.mem_filter, decide_eq_true_eq]
    constructor
    · rintro ⟨p, ⟨hp, hkept⟩, rfl⟩
      exact ⟨⟨p, hp, rfl⟩, hkept⟩
    · rintro ⟨⟨p, hp, rfl⟩, hkept⟩
      exact ⟨p, ⟨hp, hkept⟩, rfl⟩
  have hsub : r'.plugins.Sublist r.plugins := hplugins ▸ List.filter_sublist
  refine ⟨⟨(hsub.map _).nodup h.names_nodup, fun name => ?_, fun p hp => h.entry p (hsub.subset hp)⟩, hstopped, ?_,
    fun client => ?_⟩
  · rw [hfailures, hnames]
    split <;> simp_all
  · rw [hplugins]
    exact List.filter_congr fun p _ => by simp [hevicts]
  · simp only [List.mem_filterMap, Option.map_eq_some_iff]
    constructor
    · rintro ⟨name, hname, p, hp, rfl⟩
      exact ⟨_, mem_of_find? hp, (hevicts _).mp hname, rfl⟩
    · rintro ⟨p, hp, hevicted, rfl⟩
      exact ⟨p.1, (hevicts p).mpr hevicted, p.2, h.find?_iff.mpr hp, rfl⟩

end Registry
end Intendant
