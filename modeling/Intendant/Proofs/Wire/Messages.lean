import Intendant.Plugin.Message
import Intendant.Proofs.Wire.Records

/-! # Messages on the wire

Every type that travels between a registry and its plugins has a faithful wire form. Together this is the round
trip, by any reading that reads finite doubles back: a value with finite doubles is read back as it was, one with a
double that is not finite is not read at all, and a text that was read once can be written and read again
(`messages_roundTrip`). -/

namespace Intendant.Plugin
open Wire

/-! ### Registration -/

instance : HasFloats Kind := ⟨fun _ => []⟩
instance : HasFloats Info := ⟨fun _ => []⟩
instance : HasFloats RegisterRequest := ⟨fun _ => []⟩
instance : HasFloats RegisterAnswer := ⟨fun _ => []⟩

@[simp] theorem floats_kind (k : Kind) : floats k = [] := rfl
@[simp] theorem floats_info (i : Info) : floats i = [] := rfl

@[simp] theorem finite_kind (k : Kind) : finite k = true := rfl
@[simp] theorem finite_info (i : Info) : finite i = true := rfl
@[simp] theorem finite_registerRequest (r : RegisterRequest) : finite r = true := rfl
@[simp] theorem finite_registerAnswer (r : RegisterAnswer) : finite r = true := rfl

instance : Faithful Kind where
  writable _ := writable_string _ "actuator"
  ofJson?_toJson k := by cases k; rfl
  finite_of_ofJson? _ _ := rfl

instance : Faithful Info where
  writable i := writable_object.mpr (by simp)
  ofJson?_toJson i := by
    refine (Fields.of?_bind (by simp) (by simp) _).trans ?_
    simp [Fields.required?, Fields.optional?]
  finite_of_ofJson? _ _ := rfl

instance : Faithful RegisterRequest where
  writable r := writable_object.mpr (by simp)
  ofJson?_toJson r := by
    refine (Fields.of?_bind (by simp) (by simp) _).trans ?_
    simp [Fields.required?]
  finite_of_ofJson? _ _ := rfl

instance : Faithful RegisterAnswer where
  writable r := writable_object.mpr (by simp)
  ofJson?_toJson r := by
    refine (Fields.of?_bind (by simp) (by simp) _).trans ?_
    simp [Fields.required?, Fields.optional?]
  finite_of_ofJson? _ _ := rfl

/-! ### Questions and answers -/

instance : HasFloats NextStateRequest := ⟨fun r => floats r.state ++ floats r.goal⟩
instance : HasFloats NextStateAnswer := ⟨fun r => floats r.states ++ floats r.utilities⟩
instance : HasFloats PerformRequest := ⟨fun r => floats r.state⟩
instance : HasFloats EffectRequest := ⟨fun r => floats r.state⟩

@[simp] theorem floats_actions (as : List Action) : floats as = [] := floats_list_of_forall floats_action as

@[simp] theorem finite_actions (as : List Action) : finite as = true := by simp [finite_list]

theorem floats_nextStateRequest (r : NextStateRequest) : floats r = floats r.state ++ floats r.goal := rfl

theorem floats_nextStateAnswer (r : NextStateAnswer) : floats r = floats r.states ++ floats r.utilities := rfl

theorem floats_performRequest (r : PerformRequest) : floats r = floats r.state := rfl

theorem floats_effectRequest (r : EffectRequest) : floats r = floats r.state := rfl

theorem finite_nextStateRequest (r : NextStateRequest) : finite r = (finite r.state && finite r.goal) := List.all_append

theorem finite_nextStateAnswer (r : NextStateAnswer) : finite r = (finite r.states && finite r.utilities) :=
  List.all_append

theorem finite_performRequest (r : PerformRequest) : finite r = finite r.state := rfl

theorem finite_effectRequest (r : EffectRequest) : finite r = finite r.state := rfl

instance : Faithful NextStateRequest where
  writable r := writable_object.mpr (by simp +contextual [floats_nextStateRequest])
  ofJson?_toJson r := by
    refine (Fields.of?_bind (by simp) (by simp) _).trans ?_
    simp [Fields.required?, Fields.optional?, ite_and, finite_nextStateRequest]
  finite_of_ofJson? {j r} hj h := by
    obtain ⟨f, hf, h⟩ := Option.bind_eq_some_iff.mp h
    simp only [Option.bind_eq_bind, Option.bind_eq_some_iff, Option.pure_def, Option.some.injEq] at h
    obtain ⟨state, hstate, goal, hgoal, profiles, -, rfl⟩ := h
    rw [finite_nextStateRequest, Bool.and_eq_true]
    exact ⟨finite_of_required? hj hf hstate, finite_of_required? hj hf hgoal⟩

instance : Faithful NextStateAnswer where
  writable r := writable_object.mpr (by simp +contextual [floats_nextStateAnswer])
  ofJson?_toJson r := by
    refine (Fields.of?_bind (by simp) (by simp) _).trans ?_
    simp [Fields.optional?, ite_and, finite_nextStateAnswer]
  finite_of_ofJson? {j r} hj h := by
    obtain ⟨f, hf, h⟩ := Option.bind_eq_some_iff.mp h
    simp only [Option.bind_eq_bind, Option.bind_eq_some_iff, Option.pure_def, Option.some.injEq] at h
    obtain ⟨states, hstates, utilities, hutilities, actions, -, rfl⟩ := h
    rw [finite_nextStateAnswer, Bool.and_eq_true]
    exact ⟨finite_of_optional? rfl hj hf hstates, finite_of_optional? rfl hj hf hutilities⟩

instance : Faithful PerformRequest where
  writable r := writable_object.mpr (by simp [floats_performRequest])
  ofJson?_toJson r := by
    refine (Fields.of?_bind (by simp) (by simp) _).trans ?_
    simp [Fields.required?, Fields.optional?, finite_performRequest]
    rfl
  finite_of_ofJson? {j r} hj h := by
    obtain ⟨f, hf, h⟩ := Option.bind_eq_some_iff.mp h
    simp only [Option.bind_eq_bind, Option.bind_eq_some_iff, Option.pure_def, Option.some.injEq] at h
    obtain ⟨state, hstate, plan, -, rfl⟩ := h
    rw [finite_performRequest]
    exact finite_of_required? hj hf hstate

instance : Faithful EffectRequest where
  writable r := writable_object.mpr (by simp [floats_effectRequest])
  ofJson?_toJson r := by
    refine (Fields.of?_bind (by simp) (by simp) _).trans ?_
    simp [Fields.required?, Fields.optional?, finite_effectRequest]
    rfl
  finite_of_ofJson? {j r} hj h := by
    obtain ⟨f, hf, h⟩ := Option.bind_eq_some_iff.mp h
    simp only [Option.bind_eq_bind, Option.bind_eq_some_iff, Option.pure_def, Option.some.injEq] at h
    obtain ⟨state, hstate, profiles, -, rfl⟩ := h
    rw [finite_effectRequest]
    exact finite_of_required? hj hf hstate

/-! ### The round trip -/

section
variable [Json.Reading]

/-- Values with finite doubles are read back, others are not read, and what was read is read again. -/
def RoundTrips (α : Type) [Wire α] [HasFloats α] : Prop :=
  ∀ v : α,
    ((∀ x ∈ floats v, x.isFinite = true) → decode? (encode v) = some v) ∧
    ((∃ x ∈ floats v, x.isNaN = true ∨ x.isInf = true) → decode? (encode v) = (none : Option α)) ∧
    ∀ text, decode? text = some v → decode? (encode v) = some v

theorem roundTrips (α : Type) [Wire α] [HasFloats α] [Faithful α] (hexact : Json.Reading.Exact) : RoundTrips α := by
  have hread : ∀ v : α, decode? (encode v) = if finite v then some v else none :=
    fun v => decode?_encode fun x _ => hexact x
  refine fun v => ⟨fun h => ?_, ?_, fun text h => ?_⟩
  · have hfinite : finite v = true := List.all_eq_true.mpr h
    rw [hread, if_pos hfinite]
  · rintro ⟨x, hx, h⟩
    have hfinite : ¬ finite v = true := by
      intro hall
      have := List.all_eq_true.mp hall x hx
      rw [Double.isFinite_eq_false.mpr h] at this
      cases this
    rw [hread, if_neg hfinite]
  · rw [hread, if_pos (finite_of_decode? h)]

/-- The round trip of everything that travels, if every finite double is read back. -/
theorem messages_roundTrip (hexact : Json.Reading.Exact) :
    RoundTrips State ∧ RoundTrips Action ∧ RoundTrips Profile ∧ RoundTrips Info ∧ RoundTrips RegisterRequest ∧
      RoundTrips RegisterAnswer ∧ RoundTrips NextStateRequest ∧ RoundTrips NextStateAnswer ∧ RoundTrips PerformRequest ∧
      RoundTrips EffectRequest :=
  ⟨roundTrips _ hexact, roundTrips _ hexact, roundTrips _ hexact, roundTrips _ hexact, roundTrips _ hexact,
    roundTrips _ hexact, roundTrips _ hexact, roundTrips _ hexact, roundTrips _ hexact, roundTrips _ hexact⟩

end

/-- An answer whose doubles the scaling reading takes to be what the nearest doubles are. -/
def rated : NextStateAnswer where
  states := [{ intent := { key := "api", objectives := KeyMap.empty.insert "p99" 0.3 } }]
  utilities := [-0.0]
  actions := [{ name := "scale" }]

theorem messages_roundTrip_rated :
    @Json.Reading.Exact .nearest ∧ (∀ x ∈ floats rated, @Json.Reading.ReadsBack .scaled x) ∧
      @decode? NextStateAnswer _ .nearest (encode rated) = some rated := by
  have hscaled : ∀ x ∈ floats rated, @Json.Reading.ReadsBack .scaled x := by decide +kernel
  let _ : Json.Reading := .nearest
  have hexact : Json.Reading.Exact := Json.Reading.nearest_exact
  obtain ⟨-, -, -, -, -, -, -, hanswer, -, -⟩ := messages_roundTrip hexact
  exact ⟨hexact, hscaled, (hanswer rated).1 (by decide +kernel)⟩

end Intendant.Plugin
