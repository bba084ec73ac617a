import Intendant.State.Dominance
import Intendant.Proofs.Double.Value
import Intendant.Proofs.KeyMap

/-! # Dominance

A state is better than another one exactly if both have the same objectives, at least one, and every value meets the
value that it is compared with (`isBetter_iff`). Values are compared as the numbers that they stand for, and NaN meets
nothing. So being better is transitive; states without NaN are better than themselves, and two states are better than
each other exactly if their objectives have the same numbers (`isBetter_preorder`). -/

namespace Intendant

/-- Whether the profile of an objective says that smaller values are better. -/
def Profiles.PointsDown (ps : Profiles) (objective : String) : Prop :=
  ∃ p, ps.get? objective = some p ∧ (p.minimize = true ∨ p.kind = .latency ∨ p.kind = .power)

theorem Profiles.minimizes_iff {ps : Profiles} {objective : String} :
    ps.minimizes objective = true ↔ ps.PointsDown objective := by
  unfold minimizes PointsDown
  cases ps.get? objective with
  | none => simp
  | some p => simp [Profile.isMinimized, or_assoc]

namespace State

/-- A value is on the favourable side of a target, or equal to it. -/
structure Meets (ps : Profiles) (objective : String) (value target : Float) : Prop where
  number : value.isNaN = false
  target_number : target.isNaN = false
  down : ps.PointsDown objective → Double.value value ≤ Double.value target
  up : ¬ps.PointsDown objective → Double.value target ≤ Double.value value

/-- Both states have the same objectives, and at least one. -/
structure Alike (s t : State) : Prop where
  some : ∃ k, k ∈ s.intent.objectives.keys
  same : ∀ k, k ∈ s.intent.objectives.keys ↔ k ∈ t.intent.objectives.keys

section
variable {a b c : State} {ps : Profiles} {objective : String} {x y z : Float}

/-! ### Values -/

theorem favorable_iff : favorable ps objective x y = true ↔ Meets ps objective x y := by
  unfold favorable
  by_cases hdown : ps.PointsDown objective
  · rw [if_pos (Profiles.minimizes_iff.mpr hdown), decide_eq_true_eq, Double.le_iff_value]
    constructor
    · rintro ⟨hx, hy, hvalue⟩
      exact ⟨Double.isNaN_eq_false.mpr hx, Double.isNaN_eq_false.mpr hy, fun _ => hvalue, fun h => absurd hdown h⟩
    · rintro ⟨hx, hy, hvalue, -⟩
      exact ⟨Double.isNaN_eq_false.mp hx, Double.isNaN_eq_false.mp hy, hvalue hdown⟩
  · rw [if_neg (mt Profiles.minimizes_iff.mp hdown), decide_eq_true_eq, Double.le_iff_value]
    constructor
    · rintro ⟨hy, hx, hvalue⟩
      exact ⟨Double.isNaN_eq_false.mpr hx, Double.isNaN_eq_false.mpr hy, fun h => absurd h hdown, fun _ => hvalue⟩
    · rintro ⟨hx, hy, -, hvalue⟩
      exact ⟨Double.isNaN_eq_false.mp hy, Double.isNaN_eq_false.mp hx, hvalue hdown⟩

theorem Meets.trans (h : Meets ps objective x y) (h' : Meets ps objective y z) : Meets ps objective x z where
  number := h.number
  target_number := h'.target_number
  down hdown := (h.down hdown).trans (h'.down hdown)
  up hup := (h'.up hup).trans (h.up hup)

theorem meets_self : Meets ps objective x x ↔ x.isNaN = false :=
  ⟨Meets.number, fun hx => ⟨hx, hx, fun _ => le_rfl, fun _ => le_rfl⟩⟩

theorem meets_both : Meets ps objective x y ∧ Meets ps objective y x ↔
    x.isNaN = false ∧ y.isNaN = false ∧ Double.value x = Double.value y := by
  constructor
  · rintro ⟨h, h'⟩
    refine ⟨h.number, h.target_number, ?_⟩
    by_cases hdown : ps.PointsDown objective
    · exact (h.down hdown).antisymm (h'.down hdown)
    · exact (h'.up hdown).antisymm (h.up hdown)
  · rintro ⟨hx, hy, hvalue⟩
    exact ⟨⟨hx, hy, fun _ => hvalue.le, fun _ => hvalue.ge⟩, ⟨hy, hx, fun _ => hvalue.ge, fun _ => hvalue.le⟩⟩

/-! ### States -/

theorem alike_self : Alike a a ↔ ∃ k, k ∈ a.intent.objectives.keys := ⟨Alike.some, fun h => ⟨h, fun _ => .rfl⟩⟩

theorem Alike.trans (h : Alike a b) (h' : Alike b c) : Alike a c where
  some := h.some
  same k := (h.same k).trans (h'.same k)

theorem Alike.symm (h : Alike a b) : Alike b a where
  some := h.some.imp fun k hk => (h.same k).mp hk
  same k := (h.same k).symm

theorem Alike.exists_target (h : Alike a b) {k : String} (hk : a.intent.objectives.get? k = Option.some x) :
    ∃ y, b.intent.objectives.get? k = Option.some y := by
  refine Option.isSome_iff_exists.mp (KeyMap.mem_keys.mp ((h.same k).mp (KeyMap.mem_keys.mpr ?_)))
  rw [hk]
  rfl

/-- The test walks over the objectives of the first state only; that the second one has no others follows from the sizes. -/
theorem isBetter_iff : a.isBetter b ps = true ↔ Alike a b ∧ ∀ k x y, a.intent.objectives.get? k = some x →
    b.intent.objectives.get? k = some y → Meets ps k x y := by
  rw [isBetter, Bool.and_eq_true, Bool.and_eq_true, decide_eq_true_eq, Bool.not_eq_true', KeyMap.isEmpty_eq_false,
    List.all_eq_true]
  constructor
  · rintro ⟨⟨hsize, hsome⟩, hall⟩
    have hmeets : ∀ k x, a.intent.objectives.get? k = some x →
        ∃ y, b.intent.objectives.get? k = some y ∧ Meets ps k x y := by
      intro k x hx
      have hx' := hall (k, x) (KeyMap.mem_entries_iff.mpr hx)
      dsimp only at hx'
      cases hy : b.intent.objectives.get? k with
      | none =>
        rw [hy] at hx'
        cases hx'
      | some y =>
        rw [hy] at hx'
        exact ⟨y, rfl, favorable_iff.mp hx'⟩
    refine ⟨⟨hsome, fun k => KeyMap.mem_keys_iff_of_size hsize fun k hk => ?_⟩, fun k x y hx hy => ?_⟩
    · obtain ⟨x, hx⟩ := Option.isSome_iff_exists.mp (KeyMap.mem_keys.mp hk)
      obtain ⟨y, hy, -⟩ := hmeets k x hx
      exact KeyMap.mem_keys.mpr (Option.isSome_iff_exists.mpr ⟨y, hy⟩)
    · obtain ⟨y', hy', hmeet⟩ := hmeets k x hx
      obtain rfl : y' = y := Option.some.inj (hy'.symm.trans hy)
      exact hmeet
  · rintro ⟨halike, hmeets⟩
    refine ⟨⟨KeyMap.size_eq_of_keys halike.same, halike.some⟩, ?_⟩
    rintro ⟨k, x⟩ hmem
    have hx := KeyMap.mem_entries_iff.mp hmem
    obtain ⟨y, hy⟩ := halike.exists_target hx
    dsimp only
    rw [hy]
    exact favorable_iff.mpr (hmeets k x y hx hy)

theorem isBetter_trans (h : a.isBetter b ps = true) (h' : b.isBetter c ps = true) : a.isBetter c ps = true := by
  obtain ⟨halike, hmeets⟩ := isBetter_iff.mp h
  obtain ⟨halike', hmeets'⟩ := isBetter_iff.mp h'
  refine isBetter_iff.mpr ⟨halike.trans halike', fun k x z hx hz => ?_⟩
  obtain ⟨y, hy⟩ := halike.exists_target hx
  exact (hmeets k x y hx hy).trans (hmeets' k y z hy hz)

theorem isBetter_self : a.isBetter a ps = true ↔
    (∃ k, k ∈ a.intent.objectives.keys) ∧ ∀ k x, a.intent.objectives.get? k = some x → x.isNaN = false := by
  rw [isBetter_iff, alike_self]
  refine and_congr_right fun _ => ⟨fun h k x hx => (h k x x hx hx).number, fun h k x y hx hy => ?_⟩
  obtain rfl : x = y := Option.some.inj (hx.symm.trans hy)
  exact meets_self.mpr (h k x hx)

theorem isBetter_both : a.isBetter b ps = true ∧ b.isBetter a ps = true ↔
    Alike a b ∧ ∀ k x y, a.intent.objectives.get? k = some x → b.intent.objectives.get? k = some y →
      x.isNaN = false ∧ y.isNaN = false ∧ Double.value x = Double.value y := by
  rw [isBetter_iff, isBetter_iff]
  constructor
  · rintro ⟨⟨halike, hmeets⟩, -, hmeets'⟩
    exact ⟨halike, fun k x y hx hy => meets_both.mp ⟨hmeets k x y hx hy, hmeets' k y x hy hx⟩⟩
  · rintro ⟨halike, hequal⟩
    refine ⟨⟨halike, fun k x y hx hy => ?_⟩, halike.symm, fun k y x hy hx => ?_⟩
    · exact (meets_both.mpr (hequal k x y hx hy)).1
    · exact (meets_both.mpr (hequal k x y hx hy)).2

end

/-- Being better is a preorder on states with objectives that are numbers, and states that are better than each other
    agree on all objectives. -/
theorem isBetter_preorder (ps : Profiles) :
    (∀ a b : State, a.isBetter b ps = true ↔ Alike a b ∧ ∀ k x y, a.intent.objectives.get? k = some x →
      b.intent.objectives.get? k = some y → Meets ps k x y) ∧
    (∀ a b c : State, a.isBetter b ps = true → b.isBetter c ps = true → a.isBetter c ps = true) ∧
    (∀ a : State, a.isBetter a ps = true ↔
      (∃ k, k ∈ a.intent.objectives.keys) ∧ ∀ k x, a.intent.objectives.get? k = some x → x.isNaN = false) ∧
    (∀ a b : State, a.isBetter b ps = true ∧ b.isBetter a ps = true ↔
      Alike a b ∧ ∀ k x y, a.intent.objectives.get? k = some x → b.intent.objectives.get? k = some y →
        x.isNaN = false ∧ y.isNaN = false ∧ Double.value x = Double.value y) :=
  ⟨fun _ _ => isBetter_iff, fun _ _ _ => isBetter_trans, fun _ => isBetter_self, fun _ _ => isBetter_both⟩

/-- Smaller latencies are better, and more requests are. -/
def swift : Profiles := KeyMap.empty.insert "latency" ⟨"latency", .latency, false⟩

/-- A state with two objectives. -/
def measured (latency requests : Float) : State :=
  { intent := { objectives := (KeyMap.empty.insert "latency" latency).insert "requests" requests } }

/-- A faster state is better than one that is slower, and so than one that serves fewer requests as well. The two zeros
    are the same number. -/
theorem isBetter_preorder_measured :
    (measured 0.0 9.0).isBetter (measured 2.0 9.0) swift = true ∧
      (measured 2.0 9.0).isBetter (measured 2.0 3.0) swift = true ∧
      (measured 0.0 9.0).isBetter (measured 2.0 3.0) swift = true ∧
      (measured 2.0 3.0).isBetter (measured 0.0 9.0) swift = false ∧
      Alike (measured 0.0 9.0) (measured (-0.0) 9.0) ∧ Double.value 0.0 = Double.value (-0.0) := by
  obtain ⟨-, htrans, -, hboth⟩ := isBetter_preorder swift
  have hfast : (measured 0.0 9.0).isBetter (measured 2.0 9.0) swift = true := by decide +kernel
  have hmore : (measured 2.0 9.0).isBetter (measured 2.0 3.0) swift = true := by decide +kernel
  have hzeros : (measured 0.0 9.0).isBetter (measured (-0.0) 9.0) swift = true ∧
      (measured (-0.0) 9.0).isBetter (measured 0.0 9.0) swift = true := by decide +kernel
  obtain ⟨halike, hequal⟩ := (hboth _ _).mp hzeros
  refine ⟨hfast, hmore, htrans _ _ _ hfast hmore, by decide +kernel, halike, ?_⟩
  exact (hequal "latency" 0.0 (-0.0) (by decide +kernel) (by decide +kernel)).2.2

end State
end Intendant
