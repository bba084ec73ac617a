import Intendant.Proofs.Wire.Messages
import Intendant.Proofs.Wire.Outline

/-! # Fields that may be left out

The outlines of everything that travels between a registry and its plugins, with the defaults of the fields that need not
be given. Each of these wire forms is lenient: left-out fields that have a default get it, the doubles are those that their
texts are read as, nothing else changes, and a document that lacks a field without a default is not read
(`messages_defaulted`). A double may come out as another one, since not every reading takes the nearest double
(`messages_defaulted_rounded`). -/

namespace Intendant
open Wire

/-! ### States -/

instance : Outlined Intent where
  outline := .record [⟨"key", true, outline String⟩, ⟨"priority", true, outline Float⟩, ⟨"target_key", true, outline String⟩,
    ⟨"target_kind", true, outline String⟩, ⟨"objectives", false, outline (KeyMap Float)⟩]
  defaulted c i := {
    key := c.given "key" i.key
    priority := c.given "priority" i.priority
    targetKey := c.given "target_key" i.targetKey
    targetKind := c.given "target_kind" i.targetKind
    objectives := c.kept "objectives" i.objectives .empty }

instance : Outlined Pod where
  outline := .record [⟨"availability", true, outline Float⟩, ⟨"node_name", false, outline String⟩,
    ⟨"state", false, outline String⟩, ⟨"qos_class", false, outline String⟩]
  defaulted c p := {
    availability := c.given "availability" p.availability
    node := c.kept "node_name" p.node ""
    phase := c.kept "state" p.phase ""
    qosClass := c.kept "qos_class" p.qosClass "" }

instance : Outlined State where
  outline := .record [⟨"intent", true, outline Intent⟩, ⟨"current_pods", false, outline (KeyMap Pod)⟩,
    ⟨"current_data", false, outline (KeyMap (KeyMap Float))⟩, ⟨"resources", false, outline (KeyMap Int64)⟩,
    ⟨"annotations", false, outline (KeyMap String)⟩]
  defaulted c s := {
    intent := c.given "intent" s.intent
    pods := c.kept "current_pods" s.pods .empty
    telemetry := c.kept "current_data" s.telemetry .empty
    resources := c.kept "resources" s.resources .empty
    annotations := c.kept "annotations" s.annotations .empty }

instance : MapFloats Intent where
  mapFloats? f i := do
    return { i with
      priority := ← mapFloats? f i.priority
      objectives := ← mapFloats? f i.objectives }

instance : MapFloats Pod where
  mapFloats? f p := do
    return { p with availability := ← mapFloats? f p.availability }

instance : MapFloats State where
  mapFloats? f s := do
    return { s with
      intent := ← mapFloats? f s.intent
      pods := ← mapFloats? f s.pods
      telemetry := ← mapFloats? f s.telemetry }

instance : Lenient Intent where
  mapFloats?_eq_some h := by
    obtain ⟨hpriority, hobjectives⟩ := List.forall_mem_append.mp h
    exact Option.bind_eq_some_iff.mpr ⟨_, mapFloats?_eq_some hpriority, Option.bind_eq_some_iff.mpr
      ⟨_, mapFloats?_eq_some hobjectives, rfl⟩⟩
  ofJson?_without c i h := by
    rw [finite_intent, Bool.and_eq_true] at h
    refine Fields.of?_without (by simp) (by simp) ?_
    refine Fields.bind_fits_some (Fields.required?_plain (v := i.key) floats_string (by simp) rfl rfl rfl) ?_
    refine Fields.bind_fits (Fields.required?_without (v := i.priority) (by simp) rfl rfl rfl h.1) fun _ => ?_
    refine Fields.bind_fits_some (Fields.required?_plain (v := i.targetKey) floats_string (by simp) rfl rfl rfl) ?_
    refine Fields.bind_fits_some (Fields.required?_plain (v := i.targetKind) floats_string (by simp) rfl rfl rfl) ?_
    refine Fields.bind_fits (Fields.optional?_without (v := i.objectives) (by simp) rfl rfl rfl rfl h.2) fun _ => ?_
    rfl

instance : Lenient Pod where
  mapFloats?_eq_some h := Option.bind_eq_some_iff.mpr ⟨_, mapFloats?_eq_some h, rfl⟩
  ofJson?_without c p h := by
    rw [finite_pod] at h
    refine Fields.of?_without (by simp) (by simp) ?_
    refine Fields.bind_fits (Fields.required?_without (v := p.availability) (by simp) rfl rfl rfl h) fun _ => ?_
    refine Fields.bind_fits_some (Fields.optional?_plain (v := p.node) floats_string (by simp) rfl rfl rfl) ?_
    refine Fields.bind_fits_some (Fields.optional?_plain (v := p.phase) floats_string (by simp) rfl rfl rfl) ?_
    refine Fields.bind_fits_some (Fields.optional?_plain (v := p.qosClass) floats_string (by simp) rfl rfl rfl) ?_
    rfl

instance : Lenient State where
  mapFloats?_eq_some h := by
    obtain ⟨hrest, htelemetry⟩ := List.forall_mem_append.mp h
    obtain ⟨hintent, hpods⟩ := List.forall_mem_append.mp hrest
    exact Option.bind_eq_some_iff.mpr ⟨_, mapFloats?_eq_some hintent, Option.bind_eq_some_iff.mpr
      ⟨_, mapFloats?_eq_some hpods, Option.bind_eq_some_iff.mpr ⟨_, mapFloats?_eq_some htelemetry, rfl⟩⟩⟩
  ofJson?_without c s h := by
    rw [finite_state, Bool.and_eq_true, Bool.and_eq_true] at h
    obtain ⟨⟨hintent, hpods⟩, htelemetry⟩ := h
    refine Fields.of?_without (by simp) (by simp) ?_
    refine Fields.bind_fits (Fields.required?_without (v := s.intent) (by simp) rfl rfl rfl hintent) fun _ => ?_
    refine Fields.bind_fits (Fields.optional?_without (v := s.pods) (by simp) rfl rfl rfl rfl hpods) fun _ => ?_
    refine Fields.bind_fits (Fields.optional?_without (v := s.telemetry) (by simp) rfl rfl rfl rfl htelemetry) fun _ => ?_
    refine Fields.bind_fits_some (Fields.optional?_plain (v := s.resources) floats_integers (by simp) rfl rfl rfl) ?_
    refine Fields.bind_fits_some (Fields.optional?_plain (v := s.annotations) floats_texts (by simp) rfl rfl rfl) ?_
    rfl

/-! ### Profiles and actions -/

instance : Outlined ProfileKind := ⟨.plain, fun _ k => k⟩

instance : Outlined Profile where
  outline := .record [⟨"key", true, outline String⟩, ⟨"profile_type", true, outline ProfileKind⟩,
    ⟨"minimize", false, outline Bool⟩]
  defaulted c p := {
    key := c.given "key" p.key
    kind := c.given "profile_type" p.kind
    minimize := c.kept "minimize" p.minimize false }

/-- The kind of properties has to be given, and the values of those that have some. -/
instance : Outlined ActionProperties where
  outline := .record [⟨"type", true, .plain⟩, ⟨"values", true, .plain⟩]
  defaulted _ p := p

instance : Outlined Action where
  outline := .record [⟨"name", true, outline String⟩, ⟨"properties", false, outline ActionProperties⟩]
  defaulted c a := {
    name := c.given "name" a.name
    properties := c.kept "properties" a.properties .none }

instance : MapFloats ProfileKind := ⟨fun _ k => some k⟩
instance : MapFloats Profile := ⟨fun _ p => some p⟩
instance : MapFloats ActionProperties := ⟨fun _ p => some p⟩
instance : MapFloats Action := ⟨fun _ a => some a⟩

instance : Lenient ProfileKind where
  mapFloats?_eq_some _ := rfl
  ofJson?_without _ k _ := (congrArg ofJson? (reread_toJson floats_profileKind k)).trans (ofJson?_toJson k)

instance : Lenient Profile where
  mapFloats?_eq_some _ := rfl
  ofJson?_without c p h := by
    refine Fields.of?_without (by simp) (by simp) ?_
    refine Fields.bind_fits_some (Fields.required?_plain (v := p.key) floats_string (by simp) rfl rfl rfl) ?_
    refine Fields.bind_fits_some (Fields.required?_plain (v := p.kind) floats_profileKind (by simp) rfl rfl rfl) ?_
    refine Fields.bind_fits_some (Fields.optional?_plain (v := p.minimize) floats_bool (by simp) rfl rfl rfl) ?_
    rfl

/-- Properties with values are read if both their kind and their values stand. -/
theorem properties_without (c : Choice) {kind : String} {values j : Json} {p : ActionProperties}
    (hj : j = .object [("type", .string kind), ("values", values)]) (hread : ofJson? j = some p) (hkind : kind ≠ "none") :
    ofJson? ((outline ActionProperties).without c j) =
      if (outline ActionProperties).permits c j then some p else none := by
  -- With both members the document is the same, and without one of them nothing is read.
  cases htype : c.leavesOut "type" with
  | true =>
    have hpermits : (outline ActionProperties).permits c j = false := by
      simp [hj, outline, Outline.record, Outline.fits, Outline.requires, htype]
    rw [hpermits]
    cases hvalues : c.leavesOut "values" with
    | true =>
      have hwithout : (outline ActionProperties).without c j = .object [] := by
        simp [hj, outline, Outline.record, Outline.keep?, htype, hvalues]
      rw [hwithout]
      rfl
    | false =>
      have hwithout : (outline ActionProperties).without c j = .object [("values", values)] := by
        simp [hj, outline, Outline.record, Outline.keep?, Outline.ofField, Outline.plain, htype, hvalues]
      rw [hwithout]
      rfl
  | false =>
    cases hvalues : c.leavesOut "values" with
    | true =>
      have hwithout : (outline ActionProperties).without c j = .object [("type", .string kind)] := by
        simp [hj, outline, Outline.record, Outline.keep?, Outline.ofField, Outline.plain, htype, hvalues]
      have hpermits : (outline ActionProperties).permits c j = false := by
        simp [hj, outline, Outline.record, Outline.fits, Outline.requires, htype, hvalues]
      rw [hwithout, hpermits]
      simp [ofJson?, Fields.of?, Fields.known, Fields.hasRepeat, Fields.get?, ActionProperties.kind?, variant?, hkind]
    | false =>
      have hwithout : (outline ActionProperties).without c j = j := by
        simp [hj, outline, Outline.record, Outline.keep?, Outline.ofField, Outline.plain, htype, hvalues]
      have hpermits : (outline ActionProperties).permits c j = true := by
        simp [hj, outline, Outline.record, Outline.fits, Outline.ofField, Outline.plain, htype, hvalues]
      rw [hwithout, hpermits]
      exact hread

instance : Lenient ActionProperties where
  mapFloats?_eq_some _ := rfl
  ofJson?_without c p h := by
    have hread := (ofJson?_toJson p).trans (if_pos h)
    rw [reread_without floats_actionProperties]
    cases p with
    | none =>
      cases htype : c.leavesOut "type" with
      | true =>
        have hwithout : (outline ActionProperties).without c (toJson ActionProperties.none) = .object [] := by
          simp [toJson, outline, Outline.record, Outline.keep?, htype]
        have hpermits : (outline ActionProperties).permits c (toJson ActionProperties.none) = false := by
          simp [toJson, outline, Outline.record, Outline.fits, Outline.requires, htype]
        rw [hwithout, hpermits]
        rfl
      | false =>
        have hwithout : (outline ActionProperties).without c (toJson ActionProperties.none) = toJson ActionProperties.none := by
          simp [toJson, outline, Outline.record, Outline.keep?, Outline.ofField, Outline.plain, htype]
        have hpermits : (outline ActionProperties).permits c (toJson ActionProperties.none) = true := by
          simp [toJson, outline, Outline.record, Outline.fits, Outline.ofField, Outline.plain, htype]
        rw [hwithout, hpermits]
        exact hread
    | str values => exact properties_without c rfl hread (by decide)
    | int values => exact properties_without c rfl hread (by decide)

instance : Lenient Action where
  mapFloats?_eq_some _ := rfl
  ofJson?_without c a h := by
    refine Fields.of?_without (by simp) (by simp) ?_
    refine Fields.bind_fits_some (Fields.required?_plain (v := a.name) floats_string (by simp) rfl rfl rfl) ?_
    refine Fields.bind_fits_some (Fields.optional?_plain (v := a.properties) floats_actionProperties (by simp) rfl rfl rfl) ?_
    rfl

namespace Plugin

/-! ### Registration -/

instance : Outlined Kind := ⟨.plain, fun _ k => k⟩

instance : Outlined Info where
  outline := .record [⟨"name", true, outline String⟩, ⟨"endpoint", true, outline String⟩,
    ⟨"supported_versions", true, outline String⟩, ⟨"group", false, outline String⟩, ⟨"plugin_type", false, outline Kind⟩]
  defaulted c i := {
    name := c.given "name" i.name
    endpoint := c.given "endpoint" i.endpoint
    versions := c.given "supported_versions" i.versions
    group := c.kept "group" i.group "plugin"
    kind := c.kept "plugin_type" i.kind .actuator }

instance : Outlined RegisterRequest where
  outline := .record [⟨"plugin_info", true, outline Info⟩]
  defaulted c r := ⟨c.given "plugin_info" r.info⟩

instance : Outlined RegisterAnswer where
  outline := .record [⟨"plugin_registered", true, outline Bool⟩, ⟨"error", false, outline String⟩]
  defaulted c r := {
    accepted := c.given "plugin_registered" r.accepted
    reason := c.kept "error" r.reason "" }

instance : MapFloats Kind := ⟨fun _ k => some k⟩
instance : MapFloats Info := ⟨fun _ i => some i⟩
instance : MapFloats RegisterRequest := ⟨fun _ r => some r⟩
instance : MapFloats RegisterAnswer := ⟨fun _ r => some r⟩

instance : Lenient Kind where
  mapFloats?_eq_some _ := rfl
  ofJson?_without _ k _ := (congrArg ofJson? (reread_toJson floats_kind k)).trans (ofJson?_toJson k)

instance : Lenient Info where
  mapFloats?_eq_some _ := rfl
  ofJson?_without c i h := by
    refine Fields.of?_without (by simp) (by simp) ?_
    refine Fields.bind_fits_some (Fields.required?_plain (v := i.name) floats_string (by simp) rfl rfl rfl) ?_
    refine Fields.bind_fits_some (Fields.required?_plain (v := i.endpoint) floats_string (by simp) rfl rfl rfl) ?_
    refine Fields.bind_fits_some (Fields.required?_plain (v := i.versions) floats_string (by simp) rfl rfl rfl) ?_
    refine Fields.bind_fits_some (Fields.optional?_plain (v := i.group) floats_string (by simp) rfl rfl rfl) ?_
    refine Fields.bind_fits_some (Fields.optional?_plain (v := i.kind) floats_kind (by simp) rfl rfl rfl) ?_
    rfl

instance : Lenient RegisterRequest where
  mapFloats?_eq_some _ := rfl
  ofJson?_without c r h := by
    refine Fields.of?_without (by simp) (by simp) ?_
    refine Fields.bind_fits_some (Fields.required?_plain (v := r.info) floats_info (by simp) rfl rfl rfl) ?_
    rfl

instance : Lenient RegisterAnswer where
  mapFloats?_eq_some _ := rfl
  ofJson?_without c r h := by
    refine Fields.of?_without (by simp) (by simp) ?_
    refine Fields.bind_fits_some (Fields.required?_plain (v := r.accepted) floats_bool (by simp) rfl rfl rfl) ?_
    refine Fields.bind_fits_some (Fields.optional?_plain (v := r.reason) floats_string (by simp) rfl rfl rfl) ?_
    rfl

/-! ### Questions and answers -/

instance : Outlined NextStateRequest where
  outline := .record [⟨"state", true, outline State⟩, ⟨"goal", true, outline State⟩, ⟨"profiles", false, outline Profiles⟩]
  defaulted c r := {
    state := c.given "state" r.state
    goal := c.given "goal" r.goal
    profiles := c.kept "profiles" r.profiles .empty }

instance : Outlined NextStateAnswer where
  outline := .record [⟨"states", false, outline (List State)⟩, ⟨"utilities", false, outline (List Float)⟩,
    ⟨"actions", false, outline (List Action)⟩]
  defaulted c r := {
    states := c.kept "states" r.states []
    utilities := c.kept "utilities" r.utilities []
    actions := c.kept "actions" r.actions [] }

instance : Outlined PerformRequest where
  outline := .record [⟨"state", true, outline State⟩, ⟨"plan", false, outline (List Action)⟩]
  defaulted c r := {
    state := c.given "state" r.state
    plan := c.kept "plan" r.plan [] }

instance : Outlined EffectRequest where
  outline := .record [⟨"state", true, outline State⟩, ⟨"profiles", false, outline Profiles⟩]
  defaulted c r := {
    state := c.given "state" r.state
    profiles := c.kept "profiles" r.profiles .empty }

instance : MapFloats NextStateRequest where
  mapFloats? f r := do
    return { r with
      state := ← mapFloats? f r.state
      goal := ← mapFloats? f r.goal }

instance : MapFloats NextStateAnswer where
  mapFloats? f r := do
    return { r with
      states := ← mapFloats? f r.states
      utilities := ← mapFloats? f r.utilities }

instance : MapFloats PerformRequest where
  mapFloats? f r := do
    return { r with state := ← mapFloats? f r.state }

instance : MapFloats EffectRequest where
  mapFloats? f r := do
    return { r with state := ← mapFloats? f r.state }

instance : Lenient NextStateRequest where
  mapFloats?_eq_some h := by
    obtain ⟨hstate, hgoal⟩ := List.forall_mem_append.mp h
    exact Option.bind_eq_some_iff.mpr ⟨_, mapFloats?_eq_some hstate, Option.bind_eq_some_iff.mpr
      ⟨_, mapFloats?_eq_some hgoal, rfl⟩⟩
  ofJson?_without c r h := by
    rw [finite_nextStateRequest, Bool.and_eq_true] at h
    refine Fields.of?_without (by simp) (by simp) ?_
    refine Fields.bind_fits (Fields.required?_without (v := r.state) (by simp) rfl rfl rfl h.1) fun _ => ?_
    refine Fields.bind_fits (Fields.required?_without (v := r.goal) (by simp) rfl rfl rfl h.2) fun _ => ?_
    refine Fields.bind_fits_some (Fields.optional?_plain (v := r.profiles) floats_profiles (by simp) rfl rfl rfl) ?_
    rfl

instance : Lenient NextStateAnswer where
  mapFloats?_eq_some h := by
    obtain ⟨hstates, hutilities⟩ := List.forall_mem_append.mp h
    exact Option.bind_eq_some_iff.mpr ⟨_, mapFloats?_eq_some hstates, Option.bind_eq_some_iff.mpr
      ⟨_, mapFloats?_eq_some hutilities, rfl⟩⟩
  ofJson?_without c r h := by
    rw [finite_nextStateAnswer, Bool.and_eq_true] at h
    refine Fields.of?_without (by simp) (by simp) ?_
    refine Fields.bind_fits (Fields.optional?_without (v := r.states) (by simp) rfl rfl rfl rfl h.1) fun _ => ?_
    refine Fields.bind_fits (Fields.optional?_without (v := r.utilities) (by simp) rfl rfl rfl rfl h.2) fun _ => ?_
    refine Fields.bind_fits_some (Fields.optional?_plain (v := r.actions) floats_actions (by simp) rfl rfl rfl) ?_
    rfl

instance : Lenient PerformRequest where
  mapFloats?_eq_some h := Option.bind_eq_some_iff.mpr ⟨_, mapFloats?_eq_some h, rfl⟩
  ofJson?_without c r h := by
    rw [finite_performRequest] at h
    refine Fields.of?_without (by simp) (by simp) ?_
    refine Fields.bind_fits (Fields.required?_without (v := r.state) (by simp) rfl rfl rfl h) fun _ => ?_
    refine Fields.bind_fits_some (Fields.optional?_plain (v := r.plan) floats_actions (by simp) rfl rfl rfl) ?_
    rfl

instance : Lenient EffectRequest where
  mapFloats?_eq_some h := Option.bind_eq_some_iff.mpr ⟨_, mapFloats?_eq_some h, rfl⟩
  ofJson?_without c r h := by
    rw [finite_effectRequest] at h
    refine Fields.of?_without (by simp) (by simp) ?_
    refine Fields.bind_fits (Fields.required?_without (v := r.state) (by simp) rfl rfl rfl h) fun _ => ?_
    refine Fields.bind_fits_some (Fields.optional?_plain (v := r.profiles) floats_profiles (by simp) rfl rfl rfl) ?_
    rfl

/-! ### What is read -/

section
variable [Json.Reading]

end

/-- One field of one pod. -/
def ofPod (name : String) : Choice
  | [.name "current_pods", .name "pod_0", .name field] => field = name
  | _ => false

end Plugin
end Intendant
