import Intendant.Action
import Intendant.Controller.Basic

/-! # Planning rounds

A worker takes a key and plans for its intent. Between two steps of the round other tasks may do theirs, so
a round is a process with a phase for each point at which it lets others on. In some phases it waits for an
answer from outside, which `Round.request?` names; `Round.step?` takes the answer and goes on. -/

namespace Intendant

/-- What a round knows once the state of its target has been observed. -/
structure Observation (π : Type) where
  key : String
  planner : π
  profiles : Profiles
  current : State
  desired : State

/-- A planning round for one intent. -/
inductive Round (π : Type) where
  /-- Looks for the planner. -/
  | starting (key : String)
  /-- Looks for the intent. -/
  | withPlanner (key : String) (planner : π)
  /-- Looks for the profiles. -/
  | withIntent (key : String) (planner : π) (intent : Intent)
  /-- Waits for the observed state. -/
  | observing (key : String) (planner : π) (intent : Intent) (profiles : Profiles)
  /-- Waits for the plan. -/
  | planning (o : Observation π)
  /-- Looks whether execution is paused. -/
  | planned (o : Observation π) (plan : List Action)
  /-- Waits for the execution of the plan. -/
  | executing (o : Observation π) (plan : List Action)
  /-- Waits for the update of the effects. -/
  | reviewing (o : Observation π) (plan : List Action)
  /-- Waits for the trace. -/
  | tracing (o : Observation π) (plan : List Action)

/-- What a round asks of the world outside. -/
inductive Request (π : Type) where
  | observe (intent : Intent) (profiles : Profiles)
  | plan (planner : π) (current desired : State) (profiles : Profiles)
  | execute (planner : π) (current : State) (plan : List Action)
  | review (planner : π) (current : State) (profiles : Profiles)
  | trace (current desired : State) (plan : List Action)

/-- What the world answers. -/
inductive Reply where
  | observed (state : Except SourceError State)
  | plan (actions : List Action)
  | done

namespace Round
variable {π : Type}

/-- The key of the intent a round is for. -/
def key : Round π → String
  | starting key => key
  | withPlanner key _ => key
  | withIntent key _ _ => key
  | observing key _ _ _ => key
  | planning o => o.key
  | planned o _ => o.key
  | executing o _ => o.key
  | reviewing o _ => o.key
  | tracing o _ => o.key

/-- What a round waits for, if it waits. -/
def request? : Round π → Option (Request π)
  | observing _ _ intent profiles => some (.observe intent profiles)
  | planning o => some (.plan o.planner o.current o.desired o.profiles)
  | executing o plan => some (.execute o.planner o.current plan)
  | reviewing o _ => some (.review o.planner o.current o.profiles)
  | tracing o plan => some (.trace o.current o.desired plan)
  | _ => none

/-- One step of a round, with the answer if it waits for one: what becomes of the controller and of the
    round, which may be over. A wrong answer is no step. -/
def step? (c : Controller π) : Round π → Option Reply → Option (Controller π × Option (Round π))
  | starting key, none => some (c, c.planner.map fun p => withPlanner key p)
  | withPlanner key p, none => some (c, (c.intents.get? key).map fun i => withIntent key p i)
  | withIntent key p i, none => some (c, some (observing key p i c.profiles))
  | observing key p i profiles, some (.observed (.ok current)) =>
    some (c, some (planning ⟨key, p, profiles, current, { intent := i }⟩))
  | observing _ _ _ _, some (.observed (.error _)) => some (c, none)
  | planning o, some (.plan plan) => some (c, some (planned o plan))
  | planned o plan, none =>
    some (c, some (if plan.isEmpty || c.paused then reviewing o plan else executing o plan))
  | executing o plan, some .done =>
    some ({ c with recent := c.recent.put c.now o.key }, some (reviewing o plan))
  | reviewing o plan, some .done => some (c, some (tracing o plan))
  | tracing _ _, some .done => some (c, none)
  | _, _ => none

/-- The number of steps that a round still takes at most. -/
def stepsLeft : Round π → Nat
  | starting _ => 9
  | withPlanner _ _ => 8
  | withIntent _ _ _ => 7
  | observing _ _ _ _ => 6
  | planning _ => 5
  | planned _ _ => 4
  | executing _ _ => 3
  | reviewing _ _ => 2
  | tracing _ _ => 1

end Round
end Intendant
