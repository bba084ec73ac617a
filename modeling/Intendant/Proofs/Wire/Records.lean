import Intendant.Action
import Intendant.Profile
import Intendant.Proofs.Wire.Basic
import Intendant.State.Basic

/-! # States, actions and profiles on the wire -/

namespace Intendant
open Wire

/-! ### States -/

instance : HasFloats Intent := ⟨fun i => floats i.priority ++ floats i.objectives⟩
instance : HasFloats Pod := ⟨fun p => floats p.availability⟩
instance : HasFloats State := ⟨fun s => floats s.intent ++ floats s.pods ++ floats s.telemetry⟩

theorem floats_intent (i : Intent) : floats i = floats i.priority ++ floats i.objectives := rfl

theorem floats_pod (p : Pod) : floats p = floats p.availability := rfl

theorem floats_state (s : State) : floats s = floats s.intent ++ floats s.pods ++ floats s.telemetry := rfl

theorem finite_intent (i : Intent) : finite i = (finite i.priority && finite i.objectives) := List.all_append

theorem finite_pod (p : Pod) : finite p = finite p.availability := rfl

theorem finite_state (s : State) : finite s = (finite s.intent && finite s.pods && finite s.telemetry) := by
  show (floats s.intent ++ floats s.pods ++ floats s.telemetry).all Float.isFinite = _
  rw [List.all_append, List.all_append]
  rfl

instance : Faithful Intent where
  writable i := writable_object.mpr (by simp +contextual [floats_intent])
  ofJson?_toJson i := by
    refine (Fields.of?_bind (by simp) (by simp) _).trans ?_
    simp [Fields.required?, Fields.optional?, ite_and, finite_intent]
  finite_of_ofJson? {j i} hj h := by
    obtain ⟨f, hf, h⟩ := Option.bind_eq_some_iff.mp h
    simp only [Option.bind_eq_bind, Option.bind_eq_some_iff, Option.pure_def, Option.some.injEq] at h
    obtain ⟨key, -, priority, hpriority, targetKey, -, targetKind, -, objectives, hobjectives, rfl⟩ := h
    rw [finite_intent, Bool.and_eq_true]
    exact ⟨finite_of_required? hj hf hpriority, finite_of_optional? rfl hj hf hobjectives⟩

instance : Faithful Pod where
  writable p := writable_object.mpr (by simp +contextual [floats_pod])
  ofJson?_toJson p := by
    refine (Fields.of?_bind (by simp) (by simp) _).trans ?_
    simp [Fields.required?, Fields.optional?, finite_pod]
  finite_of_ofJson? {j p} hj h := by
    obtain ⟨f, hf, h⟩ := Option.bind_eq_some_iff.mp h
    simp only [Option.bind_eq_bind, Option.bind_eq_some_iff, Option.pure_def, Option.some.injEq] at h
    obtain ⟨availability, havailability, node, -, phase, -, qosClass, -, rfl⟩ := h
    rw [finite_pod]
    exact finite_of_required? hj hf havailability

instance : Faithful State where
  writable s := writable_object.mpr (by simp +contextual [floats_state])
  ofJson?_toJson s := by
    refine (Fields.of?_bind (by simp) (by simp) _).trans ?_
    simp [Fields.required?, Fields.optional?, ite_and, finite_state]
  finite_of_ofJson? {j s} hj h := by
    obtain ⟨f, hf, h⟩ := Option.bind_eq_some_iff.mp h
    simp only [Option.bind_eq_bind, Option.bind_eq_some_iff, Option.pure_def, Option.some.injEq] at h
    obtain ⟨intent, hintent, pods, hpods, telemetry, htelemetry, resources, -, annotations, -, rfl⟩ := h
    simp only [finite_state, Bool.and_eq_true]
    exact ⟨⟨finite_of_required? hj hf hintent, finite_of_optional? rfl hj hf hpods⟩, finite_of_optional? rfl hj hf htelemetry⟩

/-! ### Profiles -/

instance : HasFloats ProfileKind := ⟨fun _ => []⟩
instance : HasFloats Profile := ⟨fun _ => []⟩

@[simp] theorem floats_profileKind (k : ProfileKind) : floats k = [] := rfl
@[simp] theorem floats_profile (p : Profile) : floats p = [] := rfl
@[simp] theorem floats_profiles (ps : Profiles) : floats ps = [] := floats_keyMap_of_forall floats_profile ps

@[simp] theorem finite_profileKind (k : ProfileKind) : finite k = true := rfl
@[simp] theorem finite_profile (p : Profile) : finite p = true := rfl
@[simp] theorem finite_profiles (ps : Profiles) : finite ps = true := finite_keyMap_of_forall finite_profile ps

instance : Faithful ProfileKind where
  writable k := writable_string _ k.name
  ofJson?_toJson k := by cases k <;> rfl
  finite_of_ofJson? _ _ := rfl

instance : Faithful Profile where
  writable p := writable_object.mpr (by simp)
  ofJson?_toJson p := by
    refine (Fields.of?_bind (by simp) (by simp) _).trans ?_
    simp [Fields.required?, Fields.optional?]
  finite_of_ofJson? _ _ := rfl

/-! ### Actions -/

instance : HasFloats ActionProperties := ⟨fun _ => []⟩
instance : HasFloats Action := ⟨fun _ => []⟩

@[simp] theorem floats_actionProperties (p : ActionProperties) : floats p = [] := rfl
@[simp] theorem floats_action (a : Action) : floats a = [] := rfl

@[simp] theorem finite_actionProperties (p : ActionProperties) : finite p = true := rfl
@[simp] theorem finite_action (a : Action) : finite a = true := rfl

instance : Faithful ActionProperties where
  writable p := by
    cases p with
    | none => exact writable_object.mpr (by simp)
    | str values => exact writable_object.mpr (by simp)
    | int values => exact writable_object.mpr (by simp)
  ofJson?_toJson p := by
    cases p with
    | none => rfl
    | str values =>
      change (Fields.of? ["type", "values"] (.object [("type", .string "str"), ("values", toJson values)])).bind _ = _
      rw [Fields.of?_bind (by simp) (by simp)]
      simp [ActionProperties.kind?, variant?]
    | int values =>
      change (Fields.of? ["type", "values"] (.object [("type", .string "int"), ("values", toJson values)])).bind _ = _
      rw [Fields.of?_bind (by simp) (by simp)]
      simp [ActionProperties.kind?, variant?]
  finite_of_ofJson? _ _ := rfl

instance : Faithful Action where
  writable a := writable_object.mpr (by simp)
  ofJson?_toJson a := by
    refine (Fields.of?_bind (by simp) (by simp) _).trans ?_
    simp [Fields.required?, Fields.optional?]
  finite_of_ofJson? _ _ := rfl

end Intendant
