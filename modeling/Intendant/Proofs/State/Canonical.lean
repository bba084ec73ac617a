import Intendant.State.Dominance
import Intendant.Proofs.KeyMap
import Mathlib

/-! # Canonical equality

In memory a double is a pattern of 64 bits, and more than one pattern is NaN. Canonical equality goes through two states
field by field: texts are compared as they are, doubles by their patterns, and maps by their sizes and by a walk over the
entries of both side by side. The walk decides whether two maps hold the same under every name
(`KeyMap.walksAlong_iff`), because the entries of both are in the order of the names. So canonical equality is identity of
all fields, and of what the planner makes of a state nothing depends on more than that (`canonicalEq_exact`). The doubles
of a state are values, among which NaN is only one, and it lies in memory as one pattern. So the equality by which a graph
finds its states is canonical equality up to the payloads of NaN: states in memory that differ in nothing else are told
apart by the one and are the same to the other.

The library is imported as a whole, since no part of it brings the lemmas about the bits of doubles. -/

namespace Intendant

namespace KeyMap
variable {α : Type} {same : α → α → Bool} {r : α → α → Prop} {m n : KeyMap α}

/-- Maps of one size whose entries, taken side by side, have the same names and the same values. -/
def walksAlong (same : α → α → Bool) (m n : KeyMap α) : Bool :=
  decide (m.size = n.size) && (m.toList.zip n.toList).all fun p => decide (p.1.1 = p.2.1) && same p.1.2 p.2.2

theorem walksAlong_iff_forall₂ (h : ∀ x y, same x y = true ↔ r x y) : m.walksAlong same n = true ↔
    List.Forall₂ (fun x y => x.1 = y.1 ∧ r x.2 y.2) m.entries n.entries := by
  rw [walksAlong, Bool.and_eq_true, decide_eq_true_eq, List.all_eq_true, List.forall₂_iff_zip]
  refine and_congr_right fun _ => ⟨fun hall a b hmem => ?_, fun hall p hp => ?_⟩
  · have hpair := hall (a, b) hmem
    rw [Bool.and_eq_true, decide_eq_true_eq, h] at hpair
    exact hpair
  · rw [Bool.and_eq_true, decide_eq_true_eq, h]
    exact hall hp

/-- Maps with the same names have them in the same order. -/
theorem keys_eq (h : ∀ k, k ∈ m.keys ↔ k ∈ n.keys) : m.keys = n.keys :=
  ((List.perm_ext_iff_of_nodup (keys_nodup m) (keys_nodup n)).mpr h).eq_of_pairwise
    (fun _ _ _ _ hab hba => absurd hab (String.lt_asymm hba)) (keys_sorted m) (keys_sorted n)

theorem rel_lookup (h : ∀ k, Option.Rel r (m.get? k) (n.get? k)) {k : String} {x y : α} (hx : (k, x) ∈ m.entries)
    (hy : (k, y) ∈ n.entries) : r x y := by
  have hk := h k
  rw [mem_entries_iff.mp hx, mem_entries_iff.mp hy] at hk
  cases hk with
  | some hr => exact hr

theorem mem_keys_iff_of_rel (h : ∀ k, Option.Rel r (m.get? k) (n.get? k)) (k : String) : k ∈ m.keys ↔ k ∈ n.keys := by
  have hk := h k
  rw [mem_keys, mem_keys]
  generalize m.get? k = x, n.get? k = y at hk
  cases hk with
  | some => exact Iff.rfl
  | none => exact Iff.rfl

theorem forall₂_of_rel (h : ∀ k, Option.Rel r (m.get? k) (n.get? k)) :
    List.Forall₂ (fun x y => x.1 = y.1 ∧ r x.2 y.2) m.entries n.entries := by
  have hkeys : List.Forall₂ (fun x y : String × α => x.1 = y.1) m.entries n.entries := by
    have heq : List.Forall₂ (· = ·) m.keys n.keys := List.forall₂_eq_eq_eq ▸ keys_eq (mem_keys_iff_of_rel h)
    rwa [keys, keys, List.forall₂_map_left_iff, List.forall₂_map_right_iff] at heq
  obtain ⟨hlength, hnames⟩ := List.forall₂_iff_zip.mp hkeys
  refine List.forall₂_iff_zip.mpr ⟨hlength, fun {a b} hmem => ?_⟩
  obtain ⟨ha, hb⟩ := List.of_mem_zip hmem
  have hname : a.1 = b.1 := hnames hmem
  exact ⟨hname, rel_lookup h ha (hname ▸ hb)⟩

theorem rel_lookup_of_forall₂ {xs ys : List (String × α)}
    (h : List.Forall₂ (fun x y => x.1 = y.1 ∧ r x.2 y.2) xs ys) (k : String) :
    Option.Rel r (lookup k xs) (lookup k ys) := by
  induction h with
  | nil => exact .none
  | cons hxy _ ih =>
    rw [lookup, lookup, hxy.1]
    split
    · exact .some hxy.2
    · exact ih

/-- The walk decides whether two maps agree under every name. -/
theorem walksAlong_iff (h : ∀ x y, same x y = true ↔ r x y) :
    m.walksAlong same n = true ↔ ∀ k, Option.Rel r (m.get? k) (n.get? k) :=
  (walksAlong_iff_forall₂ h).trans ⟨rel_lookup_of_forall₂, forall₂_of_rel⟩

/-- Where values are the same only if they are equal, so are maps. -/
theorem rel_eq_iff : (∀ k, Option.Rel (· = ·) (m.get? k) (n.get? k)) ↔ ∀ k, m.get? k = n.get? k := by
  refine forall_congr' fun k => ?_
  generalize m.get? k = x, n.get? k = y
  constructor
  · intro h
    cases h with
    | some hr => exact congrArg some hr
    | none => rfl
  · rintro rfl
    cases x with
    | none => exact .none
    | some v => exact .some rfl

end KeyMap

/-! ### States in memory -/

namespace Packed

/-- An intent with its doubles as patterns. -/
structure Intent where
  key : String
  priority : UInt64
  targetKey : String
  targetKind : String
  objectives : KeyMap UInt64
deriving DecidableEq

/-- A pod with its availability as a pattern. -/
structure Pod where
  availability : UInt64
  node : String
  phase : String
  qosClass : String
deriving DecidableEq

/-- A state with all its doubles as patterns. -/
structure State where
  intent : Intent
  pods : KeyMap Pod
  telemetry : KeyMap (KeyMap UInt64)
  resources : KeyMap Int64
  annotations : KeyMap String
deriving DecidableEq

/-- Maps of doubles are walked along with the patterns compared. -/
def sameDoubles (m n : KeyMap UInt64) : Bool := m.walksAlong (fun x y => decide (x = y)) n

/-- Equality of intents, field by field. -/
def Intent.same (a b : Intent) : Bool :=
  decide (a.key = b.key) && decide (a.priority = b.priority) && decide (a.targetKey = b.targetKey) &&
    decide (a.targetKind = b.targetKind) && sameDoubles a.objectives b.objectives

/-- Equality of pods, field by field. -/
def Pod.same (a b : Pod) : Bool :=
  decide (a.availability = b.availability) && decide (a.node = b.node) && decide (a.phase = b.phase) &&
    decide (a.qosClass = b.qosClass)

/-- Equality of states, field by field. -/
def State.canonicalEq (a b : State) : Bool :=
  a.intent.same b.intent && a.pods.walksAlong Pod.same b.pods && a.telemetry.walksAlong sameDoubles b.telemetry &&
    a.resources.walksAlong (fun x y => decide (x = y)) b.resources &&
    a.annotations.walksAlong (fun x y => decide (x = y)) b.annotations

/-- All fields of two states agree; maps agree in what they hold under every name. -/
structure State.Agree (a b : State) : Prop where
  key : a.intent.key = b.intent.key
  priority : a.intent.priority = b.intent.priority
  targetKey : a.intent.targetKey = b.intent.targetKey
  targetKind : a.intent.targetKind = b.intent.targetKind
  objectives : ∀ k, a.intent.objectives.get? k = b.intent.objectives.get? k
  pods : ∀ k, a.pods.get? k = b.pods.get? k
  telemetry : ∀ k, Option.Rel (fun m n : KeyMap UInt64 => ∀ host, m.get? host = n.get? host) (a.telemetry.get? k)
    (b.telemetry.get? k)
  resources : ∀ k, a.resources.get? k = b.resources.get? k
  annotations : ∀ k, a.annotations.get? k = b.annotations.get? k

variable {a b : State}

theorem sameDoubles_iff (m n : KeyMap UInt64) : sameDoubles m n = true ↔ ∀ k, m.get? k = n.get? k :=
  (KeyMap.walksAlong_iff fun _ _ => decide_eq_true_iff).trans KeyMap.rel_eq_iff

theorem Pod.same_iff (p q : Pod) : p.same q = true ↔ p = q := by
  obtain ⟨availability, node, phase, qosClass⟩ := p
  obtain ⟨availability', node', phase', qosClass'⟩ := q
  simp only [Pod.same, Bool.and_eq_true, decide_eq_true_eq, and_assoc, Pod.mk.injEq]

theorem State.canonicalEq_iff_agree : a.canonicalEq b = true ↔ a.Agree b := by
  have hpods : a.pods.walksAlong Pod.same b.pods = true ↔ ∀ k, a.pods.get? k = b.pods.get? k :=
    (KeyMap.walksAlong_iff Pod.same_iff).trans KeyMap.rel_eq_iff
  have hresources : a.resources.walksAlong (fun x y => decide (x = y)) b.resources = true ↔
      ∀ k, a.resources.get? k = b.resources.get? k :=
    (KeyMap.walksAlong_iff fun _ _ => decide_eq_true_iff).trans KeyMap.rel_eq_iff
  have hannotations : a.annotations.walksAlong (fun x y => decide (x = y)) b.annotations = true ↔
      ∀ k, a.annotations.get? k = b.annotations.get? k :=
    (KeyMap.walksAlong_iff fun _ _ => decide_eq_true_iff).trans KeyMap.rel_eq_iff
  simp only [canonicalEq, Intent.same, Bool.and_eq_true, decide_eq_true_eq, hpods, hresources, hannotations,
    sameDoubles_iff, KeyMap.walksAlong_iff sameDoubles_iff]
  constructor
  · rintro ⟨⟨⟨⟨⟨⟨⟨⟨key, priority⟩, targetKey⟩, targetKind⟩, objectives⟩, pods⟩, telemetry⟩, resources⟩, annotations⟩
    exact ⟨key, priority, targetKey, targetKind, objectives, pods, telemetry, resources, annotations⟩
  · intro h
    exact ⟨⟨⟨⟨⟨⟨⟨⟨h.key, h.priority⟩, h.targetKey⟩, h.targetKind⟩, h.objectives⟩, h.pods⟩, h.telemetry⟩, h.resources⟩,
      h.annotations⟩

theorem rel_maps_iff {m n : KeyMap (KeyMap UInt64)} :
    (∀ k, Option.Rel (fun x y : KeyMap UInt64 => ∀ host, x.get? host = y.get? host) (m.get? k) (n.get? k)) ↔ m = n := by
  have hrel : (fun x y : KeyMap UInt64 => ∀ host, x.get? host = y.get? host) = (· = ·) := by
    funext x y
    exact propext ⟨KeyMap.ext_get?, fun h host => h ▸ rfl⟩
  rw [hrel, KeyMap.rel_eq_iff]
  exact ⟨KeyMap.ext_get?, fun h k => h ▸ rfl⟩

/-- States that agree in all fields are the same. -/
theorem State.agree_iff : a.Agree b ↔ a = b := by
  constructor
  · intro h
    obtain ⟨⟨key, priority, targetKey, targetKind, objectives⟩, pods, telemetry, resources, annotations⟩ := a
    obtain ⟨⟨key', priority', targetKey', targetKind', objectives'⟩, pods', telemetry', resources', annotations'⟩ := b
    obtain ⟨rfl, rfl, rfl, rfl, hobjectives, hpods, htelemetry, hresources, hannotations⟩ := h
    obtain rfl : objectives = objectives' := KeyMap.ext_get? hobjectives
    obtain rfl : pods = pods' := KeyMap.ext_get? hpods
    obtain rfl : telemetry = telemetry' := rel_maps_iff.mp htelemetry
    obtain rfl : resources = resources' := KeyMap.ext_get? hresources
    obtain rfl : annotations = annotations' := KeyMap.ext_get? hannotations
    rfl
  · rintro rfl
    exact ⟨rfl, rfl, rfl, rfl, fun _ => rfl, fun _ => rfl, rel_maps_iff.mpr rfl, fun _ => rfl, fun _ => rfl⟩

theorem State.canonicalEq_iff : a.canonicalEq b = true ↔ a = b := canonicalEq_iff_agree.trans agree_iff

theorem State.canonicalEq_equivalence : Equivalence fun a b : State => a.canonicalEq b = true where
  refl _ := canonicalEq_iff.mpr rfl
  symm h := canonicalEq_iff.mpr (canonicalEq_iff.mp h).symm
  trans h h' := canonicalEq_iff.mpr ((canonicalEq_iff.mp h).trans (canonicalEq_iff.mp h'))

/-! ### The doubles of a state in memory -/

/-- The intent that patterns stand for. -/
def Intent.value (i : Intent) : Intendant.Intent where
  key := i.key
  priority := .ofBits i.priority
  targetKey := i.targetKey
  targetKind := i.targetKind
  objectives := i.objectives.map Float.ofBits

/-- The pod that patterns stand for. -/
def Pod.value (p : Pod) : Intendant.Pod where
  availability := .ofBits p.availability
  node := p.node
  phase := p.phase
  qosClass := p.qosClass

/-- The state that patterns stand for. All patterns of NaN stand for one value. -/
def State.value (s : State) : Intendant.State where
  intent := s.intent.value
  pods := s.pods.map Pod.value
  telemetry := s.telemetry.map fun m => m.map Float.ofBits
  resources := s.resources
  annotations := s.annotations

end Packed

/-- An intent as it lies in memory. -/
def Intent.packed (i : Intent) : Packed.Intent where
  key := i.key
  priority := i.priority.toBits
  targetKey := i.targetKey
  targetKind := i.targetKind
  objectives := i.objectives.map Float.toBits

/-- A pod as it lies in memory. -/
def Pod.packed (p : Pod) : Packed.Pod where
  availability := p.availability.toBits
  node := p.node
  phase := p.phase
  qosClass := p.qosClass

namespace State

/-- A state as it lies in memory. -/
def packed (s : State) : Packed.State where
  intent := s.intent.packed
  pods := s.pods.map Pod.packed
  telemetry := s.telemetry.map fun m => m.map Float.toBits
  resources := s.resources
  annotations := s.annotations

theorem map_map_of_inverse {α β : Type} {f : α → β} {g : β → α} (h : ∀ x, g (f x) = x) (m : KeyMap α) :
    (m.map f).map g = m := by
  refine KeyMap.ext_get? fun k => ?_
  rw [KeyMap.get?_map, KeyMap.get?_map, Option.map_map, Function.comp_def]
  simp only [h, Option.map_id']

theorem value_packed_pod (p : Pod) : p.packed.value = p := by
  rw [Pod.packed, Packed.Pod.value, Float.ofBits_toBits]

theorem value_packed (s : State) : s.packed.value = s := by
  obtain ⟨⟨key, priority, targetKey, targetKind, objectives⟩, pods, telemetry, resources, annotations⟩ := s
  simp only [packed, Intent.packed, Packed.State.value, Packed.Intent.value, Float.ofBits_toBits,
    map_map_of_inverse Float.ofBits_toBits, map_map_of_inverse value_packed_pod,
    map_map_of_inverse (map_map_of_inverse Float.ofBits_toBits)]

/-- Canonical equality of states as they lie in memory is the equality by which a graph finds the states that it has. -/
theorem canonicalEq_packed (s t : State) : s.packed.canonicalEq t.packed = decide (s = t) := by
  rw [Bool.eq_iff_iff, decide_eq_true_iff, Packed.State.canonicalEq_iff]
  exact ⟨fun h => by rw [← value_packed s, h, value_packed], fun h => h ▸ rfl⟩

/-! ### What depends on which fields -/

section
variable {s s' t t' : State}

/-- Dominance depends on the objectives alone. -/
theorem isBetter_congr (hs : ∀ k, s.intent.objectives.get? k = s'.intent.objectives.get? k)
    (ht : ∀ k, t.intent.objectives.get? k = t'.intent.objectives.get? k) (ps : Profiles) :
    s.isBetter t ps = s'.isBetter t' ps := by
  rw [isBetter, isBetter, KeyMap.ext_get? hs, KeyMap.ext_get? ht]

/-- So does the distance. -/
theorem distance_congr (hs : ∀ k, s.intent.objectives.get? k = s'.intent.objectives.get? k)
    (ht : ∀ k, t.intent.objectives.get? k = t'.intent.objectives.get? k) (ps : Profiles) :
    s.distance t ps = s'.distance t' ps := by
  rw [distance, distance, squaredDistance, squaredDistance, isBetter_congr hs ht, KeyMap.ext_get? hs,
    KeyMap.ext_get? ht]

/-- The comparison of footprints depends on the resources alone. -/
theorem lessResources?_congr (hs : ∀ k, s.resources.get? k = s'.resources.get? k)
    (ht : ∀ k, t.resources.get? k = t'.resources.get? k) : s.lessResources? t = s'.lessResources? t' := by
  rw [lessResources?, lessResources?, footprint?, footprint?, footprint?, footprint?, KeyMap.ext_get? hs,
    KeyMap.ext_get? ht]

end

end State

theorem Packed.State.Agree.objectives_value {a b : Packed.State} (h : a.Agree b) (k : String) :
    a.value.intent.objectives.get? k = b.value.intent.objectives.get? k := by
  show (a.intent.objectives.map Float.ofBits).get? k = (b.intent.objectives.map Float.ofBits).get? k
  rw [KeyMap.get?_map, KeyMap.get?_map, h.objectives]

/-- Canonical equality holds exactly if all fields agree, and is an equivalence. States that are canonically equal can
    take each other's place wherever states are compared. Between states as values, where all patterns of NaN are one, it
    is the equality by which a graph finds its states; between patterns it is finer only where payloads of NaN differ. -/
theorem canonicalEq_exact :
    (∀ a b : Packed.State, a.canonicalEq b = true ↔ a.Agree b) ∧
    (Equivalence fun a b : Packed.State => a.canonicalEq b = true) ∧
    (∀ (a b c : Packed.State) (ps : Profiles), a.canonicalEq b = true →
      a.value.isBetter c.value ps = b.value.isBetter c.value ps ∧
      c.value.isBetter a.value ps = c.value.isBetter b.value ps ∧
      a.value.distance c.value ps = b.value.distance c.value ps ∧
      c.value.distance a.value ps = c.value.distance b.value ps ∧
      a.value.lessResources? c.value = b.value.lessResources? c.value ∧
      c.value.lessResources? a.value = c.value.lessResources? b.value) ∧
    ∀ s t : State, s.packed.value = s ∧ s.packed.canonicalEq t.packed = decide (s = t) := by
  refine ⟨fun _ _ => Packed.State.canonicalEq_iff_agree, Packed.State.canonicalEq_equivalence, fun a b c ps h => ?_,
    fun s t => ⟨State.value_packed s, State.canonicalEq_packed s t⟩⟩
  have hagree := Packed.State.canonicalEq_iff_agree.mp h
  have hself : ∀ k, c.value.intent.objectives.get? k = c.value.intent.objectives.get? k := fun _ => rfl
  have hobjectives := hagree.objectives_value
  have hresources : ∀ k, a.value.resources.get? k = b.value.resources.get? k := hagree.resources
  exact ⟨State.isBetter_congr hobjectives hself ps, State.isBetter_congr hself hobjectives ps,
    State.distance_congr hobjectives hself ps, State.distance_congr hself hobjectives ps,
    State.lessResources?_congr hresources fun _ => rfl, State.lessResources?_congr (fun _ => rfl) hresources⟩

/-- A state whose only objective has a pattern. -/
def Packed.observing (pattern : UInt64) : Packed.State where
  intent := ⟨"", 0, "", "", KeyMap.empty.insert "p99" pattern⟩
  pods := .empty
  telemetry := .empty
  resources := .empty
  annotations := .empty

/-- A state with NaN is equal to its copy. Another pattern of NaN, or the other zero, makes another state. Equal goals are
    equally far. -/
theorem canonicalEq_exact_patterns :
    (Packed.observing 0x7ff8000000000000).canonicalEq (Packed.observing 0x7ff8000000000000) = true ∧
      (Packed.observing 0x7ff8000000000000).canonicalEq (Packed.observing 0x7ff8000000000001) = false ∧
      (Packed.observing 0x0000000000000000).canonicalEq (Packed.observing 0x8000000000000000) = false ∧
      ∀ goal : Packed.State, goal.canonicalEq (Packed.observing 0x4059000000000000) = true →
        (Packed.observing 0x7ff8000000000000).value.distance goal.value .empty =
          (Packed.observing 0x7ff8000000000000).value.distance (Packed.observing 0x4059000000000000).value .empty := by
  obtain ⟨-, hequivalence, hcongr, -⟩ := canonicalEq_exact
  refine ⟨hequivalence.refl _, by decide, by decide, fun goal hgoal => ?_⟩
  exact (hcongr _ _ (Packed.observing 0x7ff8000000000000) .empty hgoal).2.2.2.1

end Intendant
