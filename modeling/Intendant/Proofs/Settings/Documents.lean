import Intendant.Settings.Load

/-! # What documents say of settings

Fourteen keys of a document are known (`Settings.keys`). What is read from a document has the given values under the
keys that the document gives and the default values under all others (`ofText?_takes`). -/

namespace Intendant
open Wire

namespace Wire.Fields

/-- The part of a record under one of its names: a member of an object, or the element of an array at the place of the
    name. -/
def part? (names : List String) (name : String) : Json → Option Json
  | .object ms => (ms.find? (·.1 = name)).map (·.2)
  | .array js => js[names.idxOf name]?
  | _ => none

variable {names : List String} {name : String}

theorem find?_known {ms : List (String × Json)} (hname : name ∈ names) :
    (known names ms).find? (·.1 = name) = ms.find? (·.1 = name) := by
  rw [known, List.find?_filter]
  congr 1
  funext m
  by_cases hm : m.1 = name
  · simp [hm, hname]
  · simp [hm]

theorem find?_zip (names : List String) (name : String) (js : List Json) :
    ((names.zip js).find? (·.1 = name)).map (·.2) = if name ∈ names then js[names.idxOf name]? else none := by
  induction names generalizing js with
  | nil => rfl
  | cons n names ih =>
    cases js with
    | nil => simp
    | cons j js =>
      rw [List.zip_cons_cons, List.find?_cons, List.idxOf_cons]
      by_cases hn : n = name
      · simp [hn]
      · have hne : (n == name) = false := beq_false_of_ne hn
        simp [hn, hne, Ne.symm hn, ih]

theorem get?_of? {f : Fields} {j : Json} (h : of? names j = some f) (hname : name ∈ names) :
    f.get? name = part? names name j := by
  cases j with
  | object ms =>
    rw [of?] at h
    split at h
    · cases h
    · cases h
      rw [get?, find?_known hname]
      rfl
  | array js =>
    rw [of?] at h
    split at h
    · cases h
      exact (find?_zip names name js).trans (if_pos hname)
    · cases h
  | _ => cases h

theorem get?_leading? {f : Fields} {j : Json} (h : leading? names j = some f) (hname : name ∈ names) :
    f.get? name = part? names name j := by
  cases j with
  | array js =>
    have htaken : of? names (.array (js.take names.length)) = some f := h
    rw [get?_of? htaken hname]
    exact List.getElem?_take_of_lt (List.idxOf_lt_length_iff.mpr hname)
  | _ => exact get?_of? h hname

end Wire.Fields

namespace Settings

/-- A key of a document, by the records that it lies in with its names there, and what it says. -/
structure Key (α : Type) where
  path : List (List String × String)
  value : α → Json

/-- What a document gives under a key. -/
def given? : List (List String × String) → Json → Option Json
  | [], j => some j
  | (names, name) :: path, j => (Fields.part? names name j).bind (given? path)

/-- A key of a part as a key of the record that has the part under a name. -/
def Key.under {α β : Type} (names : List String) (name : String) (part : β → α) (k : Key α) : Key β :=
  ⟨(names, name) :: k.path, fun v => k.value (part v)⟩

/-- A key of a record that has no parts. -/
def Key.leaf {α : Type} (names : List String) (name : String) (value : α → Json) : Key α := ⟨[(names, name)], value⟩

/-- The keys about the log. -/
def logKeys : List (Key String) := [.leaf ["log_filter"] "log_filter" .string]

/-- The keys of the controller's settings. -/
def controllerKeys : List (Key ControllerSettings) :=
  let names := ["workers", "task_channel_length", "controller_timeout_secs", "plan_cache_ttl_ms", "plan_cache_timeout_ms"]
  [.leaf names "workers" fun c => .ofInt c.workers,
    .leaf names "task_channel_length" fun c => .ofInt c.channelLength,
    .leaf names "controller_timeout_secs" fun c => .ofInt c.tickSeconds,
    .leaf names "plan_cache_ttl_ms" fun c => .ofInt c.cacheTtlMs,
    .leaf names "plan_cache_timeout_ms" fun c => .ofInt c.cachePurgeMs]

/-- The keys of the planner's settings. -/
def plannerKeys : List (Key PlannerSettings) :=
  let names := ["max_states", "max_candidates", "opportunistic_candidates", "plugin_manager_endpoint",
    "plugin_manager_port", "health_check_retries", "health_check_interval_secs", "plugin_call_timeout_secs"]
  [.leaf names "max_states" fun p => .ofInt p.maxStates,
    .leaf names "max_candidates" fun p => .ofInt p.maxCandidates,
    .leaf names "opportunistic_candidates" fun p => .ofInt p.opportunistic,
    .leaf names "plugin_manager_endpoint" fun p => .string p.registryHost,
    .leaf names "plugin_manager_port" fun p => .ofInt p.registryPort,
    .leaf names "health_check_retries" fun p => .ofInt p.healthRetries,
    .leaf names "health_check_interval_secs" fun p => .ofInt p.healthIntervalSeconds,
    .leaf names "plugin_call_timeout_secs" fun p => .ofInt p.callTimeoutSeconds]

/-- All keys of a document of settings. -/
def keys : List (Key Settings) :=
  let names := ["generic", "controller", "planner"]
  logKeys.map (.under names "generic" (·.logFilter)) ++
    controllerKeys.map (.under names "controller" (·.controller)) ++
    (plannerKeys.map (.under ["astar"] "astar" id)).map (.under names "planner" (·.planner))

/-- A value says under each key what a document gives there, or else what the default value says. -/
def Takes {α : Type} (keys : List (Key α)) (j? : Option Json) (v default : α) : Prop :=
  ∀ k ∈ keys, k.value v = (j?.bind (given? k.path)).getD (k.value default)

/-- Fields that are the parts of their record. -/
def Reads (fields : FieldReader) : Prop :=
  ∀ {names j f name}, fields names j = some f → name ∈ names → f.get? name = Fields.part? names name j

theorem reads_of? : Reads Fields.of? := fun hf hname => Fields.get?_of? hf hname

theorem reads_leading? : Reads Fields.leading? := fun hf hname => Fields.get?_leading? hf hname

/-! ### Values and parts -/

section
variable {α : Type} {fields : FieldReader} {names : List String} {name : String} {j : Json} {f : Fields}

theorem value_of_natUpTo? {limit n : Nat} (h : natUpTo? limit j = some n) : j = .ofInt n := by
  obtain ⟨i, hi, h⟩ := Option.bind_eq_some_iff.mp h
  split at h
  · rename_i hrange
    cases h
    unfold int? at hi
    split at hi
    · cases hi
      rw [Int.toNat_of_nonneg hrange.1]
      rfl
    · cases hi
  · cases h

theorem value_of_text? {s : String} (h : Wire.ofJson? j = some s) : j = .string s := by
  cases j with
  | string t =>
    cases h
    rfl
  | _ => cases h

/-- What is read from a part, or the default where the part is not given. -/
theorem Takes.of_part? {keys : List (Key α)} {v d : α} {read : Json → Option α}
    (hread : ∀ {j v}, read j = some v → Takes keys (some j) v d) (h : part? f name d read = some v) :
    Takes keys (f.get? name) v d := by
  rw [part?] at h
  split at h
  · rename_i hnone
    cases h
    rw [hnone]
    exact fun k _ => rfl
  · rename_i i hsome
    rw [hsome]
    exact hread h

theorem Takes.under {β : Type} {keys : List (Key α)} {part : β → α} {v d : β}
    (h : Takes keys (Fields.part? names name j) (part v) (part d)) : Takes (keys.map (.under names name part)) (some j) v d := by
  intro k hk
  obtain ⟨k, hmem, rfl⟩ := List.mem_map.mp hk
  exact h k hmem

/-- A part that is nothing but its value. -/
theorem takes_part {v d : α} {read : Json → Option α} {value : α → Json} (hread : ∀ {j v}, read j = some v → j = value v)
    (hfields : Reads fields) (hf : fields names j = some f) (hname : name ∈ names) (h : part? f name d read = some v) :
    value v = (given? [(names, name)] j).getD (value d) := by
  -- A value is a document with a single key, the empty one.
  have hwhole : ∀ {j v}, read j = some v → Takes [⟨[], value⟩] (some j) v d := by
    intro j v hv k hk
    obtain rfl := List.mem_singleton.mp hk
    exact (hread hv).symm
  have htakes := Takes.of_part? hwhole h
  rw [hfields hf hname] at htakes
  exact htakes _ (.head _)

theorem takes_nat {limit d n : Nat} (hfields : Reads fields) (hf : fields names j = some f) (hname : name ∈ names)
    (h : natPart? f name limit d = some n) : Json.ofInt n = (given? [(names, name)] j).getD (.ofInt d) :=
  takes_part (v := n) (d := d) value_of_natUpTo? hfields hf hname h

theorem takes_text {d s : String} (hfields : Reads fields) (hf : fields names j = some f) (hname : name ∈ names)
    (h : f.optional? name d = some s) : Json.string s = (given? [(names, name)] j).getD (.string d) :=
  takes_part value_of_text? hfields hf hname h

end

/-! ### The records -/

section
variable {fields : FieldReader} {j : Json}

theorem takes_log (hfields : Reads fields) {s : String}
    (h : (fields ["log_filter"] j).bind (·.optional? "log_filter" "info") = some s) : Takes logKeys (some j) s "info" := by
  obtain ⟨f, hf, h⟩ := Option.bind_eq_some_iff.mp h
  intro k hk
  obtain rfl := List.mem_singleton.mp hk
  exact takes_text hfields hf (by simp) h

theorem takes_controller (hfields : Reads fields) {c : ControllerSettings} (h : controllerOf? fields j = some c) :
    Takes controllerKeys (some j) c {} := by
  obtain ⟨f, hf, h⟩ := Option.bind_eq_some_iff.mp h
  simp only [Option.bind_eq_bind, Option.bind_eq_some_iff, Option.pure_def, Option.some.injEq] at h
  obtain ⟨workers, hworkers, length, hlength, tick, htick, ttl, httl, purge, hpurge, rfl⟩ := h
  simp only [Takes, controllerKeys, List.forall_mem_cons]
  refine ⟨?_, ?_, ?_, ?_, ?_, by simp⟩
  · exact takes_nat hfields hf (by simp) hworkers
  · exact takes_nat hfields hf (by simp) hlength
  · exact takes_nat hfields hf (by simp) htick
  · exact takes_nat hfields hf (by simp) httl
  · exact takes_nat hfields hf (by simp) hpurge

theorem takes_planner (hfields : Reads fields) {p : PlannerSettings} (h : plannerOf? fields j = some p) :
    Takes plannerKeys (some j) p {} := by
  obtain ⟨f, hf, h⟩ := Option.bind_eq_some_iff.mp h
  simp only [Option.bind_eq_bind, Option.bind_eq_some_iff, Option.pure_def, Option.some.injEq] at h
  obtain ⟨states, hstates, candidates, hcandidates, opportunistic, hopportunistic, host, hhost, port, hport,
    retries, hretries, interval, hinterval, timeout, htimeout, rfl⟩ := h
  simp only [Takes, plannerKeys, List.forall_mem_cons]
  refine ⟨?_, ?_, ?_, ?_, ?_, ?_, ?_, ?_, by simp⟩
  · exact takes_nat hfields hf (by simp) hstates
  · exact takes_nat hfields hf (by simp) hcandidates
  · exact takes_nat hfields hf (by simp) hopportunistic
  · exact takes_text hfields hf (by simp) hhost
  · exact takes_nat hfields hf (by simp) hport
  · exact takes_nat hfields hf (by simp) hretries
  · exact takes_nat hfields hf (by simp) hinterval
  · exact takes_nat hfields hf (by simp) htimeout

theorem takes_document (hfields : Reads fields) {s : Settings} (h : ofJson? fields j = some s) :
    Takes keys (some j) s {} := by
  obtain ⟨f, hf, h⟩ := Option.bind_eq_some_iff.mp h
  simp only [Option.bind_eq_bind, Option.bind_eq_some_iff, Option.pure_def, Option.some.injEq] at h
  obtain ⟨log, hlog, controller, hcontroller, planner, hplanner, rfl⟩ := h
  have hlogged : Takes logKeys (f.get? "generic") log "info" := .of_part? (takes_log hfields) hlog
  have hcontrolled : Takes controllerKeys (f.get? "controller") controller {} := .of_part? (takes_controller hfields) hcontroller
  have hplanned : Takes (plannerKeys.map (.under ["astar"] "astar" id)) (f.get? "planner") planner {} := by
    refine .of_part? (fun {j p} hp => ?_) hplanner
    obtain ⟨g, hg, hp⟩ := Option.bind_eq_some_iff.mp hp
    have hastar : Takes plannerKeys (g.get? "astar") p {} := .of_part? (takes_planner hfields) hp
    rw [hfields hg (by simp)] at hastar
    exact hastar.under
  rw [hfields hf (by simp)] at hlogged hcontrolled hplanned
  intro k hk
  simp only [keys, List.mem_append] at hk
  rcases hk with (hk | hk) | hk
  · exact Takes.under hlogged k hk
  · exact Takes.under hcontrolled k hk
  · exact Takes.under hplanned k hk

end

/-! ### Texts -/

/-- The document of a settings text. -/
def document? [Json.Reading] : SettingsFormat → String → Option Json
  | .toml, text => Toml.parse? text
  | .json, text => Json.parse? text

/-- What is read from a text has the values of its document under the known keys, and the default values where the document
    is silent. -/
theorem ofText?_takes [Json.Reading] {format : SettingsFormat} {text : String} {s : Settings} (h : ofText? format text = some s) :
    ∃ j, document? format text = some j ∧ Takes keys (some j) s {} := by
  cases format with
  | toml =>
    obtain ⟨j, hj, h⟩ := Option.bind_eq_some_iff.mp h
    exact ⟨j, hj, takes_document reads_leading? h⟩
  | json =>
    obtain ⟨j, hj, h⟩ := Option.bind_eq_some_iff.mp h
    exact ⟨j, hj, takes_document reads_of? h⟩

end Settings
end Intendant
