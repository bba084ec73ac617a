import Intendant.Settings.Load

/-! # Settings within their bounds

Of thirteen settings it is demanded that they lie in a range (`Settings.demands`). Settings are valid exactly if every
demand is met, and otherwise the first demand that is not met is reported. -/

namespace Intendant

namespace Settings

/-- What is demanded of one setting: its key, its value and the range as texts, and that it lies in the range. -/
structure Demand where
  field : String
  value : String
  allowed : String
  met : Prop

/-- The demands on the planner and then those on the controller, in the order in which they are checked. -/
def demands (processors : Nat) (s : Settings) : List Demand :=
  let p := s.planner
  let c := s.controller
  [⟨"planner.astar.max_states", toString p.maxStates, "1..=100000", 1 ≤ p.maxStates ∧ p.maxStates ≤ 100000⟩,
    ⟨"planner.astar.max_candidates", toString p.maxCandidates, "1..=1000", 1 ≤ p.maxCandidates ∧ p.maxCandidates ≤ 1000⟩,
    ⟨"planner.astar.opportunistic_candidates", toString p.opportunistic, "0..=1000",
      0 ≤ p.opportunistic ∧ p.opportunistic ≤ 1000⟩,
    ⟨"planner.astar.plugin_manager_endpoint", p.registryHost, "1..=100 characters",
      1 ≤ p.registryHost.utf8ByteSize ∧ p.registryHost.utf8ByteSize ≤ 100⟩,
    ⟨"planner.astar.plugin_manager_port", toString p.registryPort, "1..=65535",
      1 ≤ p.registryPort ∧ p.registryPort ≤ 65535⟩,
    ⟨"planner.astar.health_check_retries", toString p.healthRetries, "1..=100",
      1 ≤ p.healthRetries ∧ p.healthRetries ≤ 100⟩,
    ⟨"planner.astar.health_check_interval_secs", toString p.healthIntervalSeconds, "1..=3600",
      1 ≤ p.healthIntervalSeconds ∧ p.healthIntervalSeconds ≤ 3600⟩,
    ⟨"planner.astar.plugin_call_timeout_secs", toString p.callTimeoutSeconds, "1..=600",
      1 ≤ p.callTimeoutSeconds ∧ p.callTimeoutSeconds ≤ 600⟩,
    ⟨"controller.workers", toString c.workers, "1..=" ++ toString processors, 1 ≤ c.workers ∧ c.workers ≤ processors⟩,
    ⟨"controller.task_channel_length", toString c.channelLength, "1..=10000",
      1 ≤ c.channelLength ∧ c.channelLength ≤ 10000⟩,
    ⟨"controller.controller_timeout_secs", toString c.tickSeconds, "1..=600", 1 ≤ c.tickSeconds ∧ c.tickSeconds ≤ 600⟩,
    ⟨"controller.plan_cache_ttl_ms", toString c.cacheTtlMs, "1..=500000", 1 ≤ c.cacheTtlMs ∧ c.cacheTtlMs ≤ 500000⟩,
    ⟨"controller.plan_cache_timeout_ms", toString c.cachePurgeMs, "1..=50000",
      1 ≤ c.cachePurgeMs ∧ c.cachePurgeMs ≤ 50000⟩]

/-- All demands are met. -/
def InBounds (processors : Nat) (s : Settings) : Prop := ∀ d ∈ s.demands processors, d.met

/-- The error about the first demand that is not met. -/
def Complaint (processors : Nat) (s : Settings) (e : SettingsError) : Prop :=
  ∃ before d after, s.demands processors = before ++ d :: after ∧ (∀ d' ∈ before, d'.met) ∧ ¬d.met ∧
    e = .outOfRange d.field d.value d.allowed

variable {processors : Nat} {s : Settings}

/-- A bound that is checked, as a demand. -/
def Bound.demand (b : Bound) : Demand := ⟨b.field, b.shown, b.allowed, b.low ≤ b.measure ∧ b.measure ≤ b.high⟩

theorem Bound.met_demand (b : Bound) : b.demand.met ↔ b.holds = true := by
  rw [Bound.holds, Bool.and_eq_true, decide_eq_true_iff, decide_eq_true_iff]
  rfl

theorem demands_eq (processors : Nat) (s : Settings) : s.demands processors = (s.bounds processors).map Bound.demand := by
  simp [demands, bounds, plannerBounds, controllerBounds, Bound.ofNat, Bound.demand, Bound.allowed]
  decide

theorem inBounds_iff : s.InBounds processors ↔ s.violation? processors = none := by
  rw [InBounds, demands_eq, violation?, List.find?_eq_none, List.forall_mem_map]
  simp [Bound.met_demand]

/-- The default settings are in bounds wherever there is a processor. -/
theorem inBounds_default (h : 1 ≤ processors) : ({} : Settings).InBounds processors := by
  have hhost : "localhost".utf8ByteSize = 9 := by decide
  simp [InBounds, demands, hhost, h]

theorem validate?_eq_ok_iff {s' : Settings} : s.validate? processors = .ok s' ↔ s' = s ∧ s.InBounds processors := by
  rw [inBounds_iff, validate?]
  cases s.violation? processors with
  | some b => simp
  | none => simp [eq_comm]

theorem validate?_eq_error_iff {e : SettingsError} : s.validate? processors = .error e ↔ s.Complaint processors e := by
  have hviolated : s.validate? processors = .error e ↔
      ∃ b, s.violation? processors = some b ∧ e = .outOfRange b.field b.shown b.allowed := by
    rw [validate?]
    cases s.violation? processors with
    | some b => simp [eq_comm]
    | none => simp
  rw [hviolated, Complaint, demands_eq]
  constructor
  · rintro ⟨b, hb, rfl⟩
    obtain ⟨hfails, before, after, heq, hbefore⟩ := List.find?_eq_some_iff_append.mp hb
    refine ⟨before.map Bound.demand, b.demand, after.map Bound.demand, ?_, ?_, ?_, rfl⟩
    · rw [heq, List.map_append, List.map_cons]
    · rw [List.forall_mem_map]
      exact fun b' hb' => b'.met_demand.mpr (by simpa using hbefore b' hb')
    · rw [b.met_demand]
      simpa using hfails
  · rintro ⟨before, d, after, heq, hbefore, hd, rfl⟩
    -- The split of the demands comes from one of the bounds.
    obtain ⟨bs, rest, hbounds, rfl, hrest⟩ := List.map_eq_append_iff.mp heq
    obtain ⟨b, bs', rfl, rfl, -⟩ := List.map_eq_cons_iff.mp hrest
    refine ⟨b, List.find?_eq_some_iff_append.mpr ⟨?_, bs, bs', hbounds, fun b' hb' => ?_⟩, rfl⟩
    · simpa [b.met_demand] using hd
    · simpa using b'.met_demand.mp (hbefore _ (List.mem_map_of_mem hb'))

end Settings
end Intendant
