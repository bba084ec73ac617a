import Intendant.Decimal.Layout
import Intendant.State.Basic
import Intendant.Action
import Intendant.Text.Quoted

/-! # Tracing

A trace keeps the documents in which actuators describe their effects, by actuator, group and profile, and
writes a line for every planning round. -/

namespace Intendant

/-- Why an effect could not be had. -/
inductive TraceError where
  | notFound (name group profile : String)
  | malformed (detail : String)
  | unavailable (cause : String)
deriving DecidableEq, Repr

/-- The text an error is shown as. -/
def TraceError.message : TraceError → String
  | notFound name group profile => "No effect recorded for " ++ name ++ " (" ++ group ++ ") and profile " ++ profile
  | malformed detail => "Effect document is malformed: " ++ detail
  | unavailable cause => "Tracer backend unavailable: " ++ cause

/-- What an effect document is kept under. -/
structure EffectKey where
  name : String
  group : String
  profile : String
deriving DecidableEq, Repr

/-- The effect documents that are known, the latest one first. -/
structure EffectStore where
  documents : List (EffectKey × Json)

namespace EffectStore

/-- The store without documents. -/
def empty : EffectStore := ⟨[]⟩

/-- Stores the document of an actuator for a profile. -/
def store (s : EffectStore) (key : EffectKey) (document : Json) : EffectStore :=
  ⟨(key, document) :: s.documents.filter (·.1 ≠ key)⟩

/-- The document kept for an actuator and a profile. -/
def find? (s : EffectStore) (key : EffectKey) : Except TraceError Json :=
  match s.documents.lookup key with
  | some document => .ok document
  | none => .error (.notFound key.name key.group key.profile)

/-- The document of an actuator for a profile, read as a value. -/
def read? {α : Type} [Wire α] (s : EffectStore) (key : EffectKey) : Except TraceError α :=
  match s.find? key with
  | .error e => .error e
  | .ok document =>
    match Wire.ofJson? document with
    | some v => .ok v
    | none => .error (.malformed "")

end EffectStore

/-- The effect of scaling: a fitted curve and the replica counts that it holds for. -/
structure ScalingEffect where
  curve : List Float
  low : Int64
  high : Int64
deriving DecidableEq

open Wire in
instance : Wire ScalingEffect where
  toJson e := .object [("popt", toJson e.curve), ("replicas_range", toJson [e.low, e.high])]
  ofJson? j := do
    let f ← Fields.of? ["popt", "replicas_range"] j
    let curve ← f.required? "popt"
    let range : List Int64 ← f.required? "replicas_range"
    match range with
    | [low, high] => return ⟨curve, low, high⟩
    | _ => none

/-! ## Lines -/

/-- Doubles in a line have the fewest digits that read back, at least one after the point; from `1e16` up
    and below `1e-4` they have an exponent. -/
def traceLayout : Decimal.Layout where
  pointMin := -3
  pointMax := 16
  plus := false
  tie := .up
  notANumber := ['N', 'a', 'N']
  infinite := ['i', 'n', 'f']
  negativeInfinite := ['-', 'i', 'n', 'f']

/-- Texts with commas between them. -/
def separated (parts : List (List Char)) : List Char := [',', ' '].intercalate parts

/-- A map of objectives as a log shows it. -/
def objectivesText (m : KeyMap Float) : List Char :=
  '\x7b' :: separated (m.toList.map fun e => Text.quoted e.1.toList ++ ':' :: ' ' :: traceLayout.text e.2) ++ ['\x7d']

/-- The names of a plan's actions as a log shows them. -/
def planText (plan : List Action) : List Char :=
  '[' :: separated (plan.map fun a => Text.quoted a.name.toList) ++ [']']

/-- The line that logs a plan with the states that it is for. -/
def planningLine (current desired : State) (plan : List Action) : String :=
  "Planning event for " ++ desired.intent.key ++ ": current " ++ String.ofList (objectivesText current.intent.objectives) ++
    ", desired " ++ String.ofList (objectivesText desired.intent.objectives) ++ ", plan " ++ String.ofList (planText plan)

end Intendant
