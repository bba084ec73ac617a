import Intendant.Actuator.Scripted
import Intendant.Controller.Service
import Intendant.Planner.Plan

/-! # Rehearsals

Stand-ins for all that a controller works with: a source with given states, planners with given plans beside
the real one, and a journal of the calls. They serve where a controller is tried out. -/

namespace Intendant

/-- A planner of a rehearsal. -/
inductive StagePlanner where
  /-- Has its plans by the key of the desired intent. -/
  | fixed (plans : List (String × List Action))
  /-- Searches with scripted actuators. -/
  | searching (limits : PlannerLimits) (actuators : List ScriptedActuator)

/-- An entry of the journal of a rehearsal. -/
inductive StageEvent where
  | plan (current desired : State) (profiles : List String)
  | execute (stateKey : String) (actions : List String)
  | effect (stateKey : String) (profiles : Nat)
  | trace (currentKey desiredKey : String) (actions : List String)
  | actuator (event : Event)

/-- The world of a rehearsal: the observed states by target, and what has happened. -/
structure Stage where
  source : List (String × Except SourceError State)
  journal : Journal := {}
  events : Array StageEvent := #[]
  /-- Whether a planner has ended without a plan, for a footprint that overflowed. -/
  overflowed : Bool := false

namespace Stage

/-- The stage with one more event. -/
def record (w : Stage) (e : StageEvent) : Stage := { w with events := w.events.push e }

/-- Runs a call on the journal of the actuators and records what they were called for. -/
def withJournal {α : Type} (w : Stage) (call : Journal → α × Journal) : α × Stage :=
  let (a, journal) := call w.journal
  let (events, journal) := journal.takeEvents
  (a, { w with journal := journal, events := w.events ++ (events.map StageEvent.actuator).toArray })

/-- Takes the events off the stage. -/
def takeEvents (w : Stage) : List StageEvent × Stage := (w.events.toList, { w with events := #[] })

/-- The world when a planner with actuators of its own comes in: they remember nothing yet. -/
def recast (w : Stage) : Stage := { w with journal := {} }

/-- The names of a plan's actions. -/
def names (plan : List Action) : List String := plan.map (·.name)

/-- Answers the requests of a controller. A plan that needs a silent actuator does not come, nor one that is given
    up for a footprint. -/
def answer : Answering StagePlanner Stage
  | .observe intent _, w =>
    (some <| .observed ((w.source.lookup intent.targetKey).getD (.error (.notFound intent.targetKey))), w)
  | .plan (.fixed plans) current desired profiles, w =>
    (some (.plan ((plans.lookup desired.intent.key).getD [])), w.record (.plan current desired profiles.keys))
  | .plan (.searching limits actuators) current desired profiles, w =>
    let (plan, w) := w.withJournal <| Journal.await <|
      Planner.createPlan limits (actuators.map (·.actuator)) current desired profiles
    (plan.join.map .plan, { w with overflowed := w.overflowed || plan == some none })
  | .execute (.fixed _) current plan, w => (some .done, w.record (.execute current.intent.key (names plan)))
  | .execute (.searching _ actuators) current plan, w =>
    (some .done, (w.withJournal fun j => ((), Planner.executePlan (actuators.map (·.actuator)) current plan j)).2)
  | .review (.fixed _) current profiles, w => (some .done, w.record (.effect current.intent.key profiles.size))
  | .review (.searching _ actuators) current profiles, w =>
    (some .done, (w.withJournal fun j => ((), Planner.triggerEffect (actuators.map (·.actuator)) current profiles j)).2)
  | .trace current desired plan, w =>
    (some .done, w.record (.trace current.intent.key desired.intent.key (names plan)))

end Stage
end Intendant
